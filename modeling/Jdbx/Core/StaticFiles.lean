import Jdbx.Core.HandleClient
import Jdbx.Library.PathNames

/-!
# Serving files

`serve_admin_file` appends the path of the request to the web root, in a buffer of 512 bytes,
and reads the file of that name.
-/

namespace Jdbx

open Library

/-- The web root, and what the file system answers.  The directories on the way to the web root
are no regular files. -/
structure WebServer where
  webRoot : Bytes
  workingDirectory : List Bytes
  /-- There is a regular file at the place. -/
  isRegular : List Bytes → Bool
  /-- `read_file_content_optimized`. -/
  readFileContent : Bytes → Option Bytes
  nonempty : webRoot ≠ []
  directories : ∀ directory, directory <+: resolvePath workingDirectory webRoot →
    isRegular directory = false

/-- `stat` finds a regular file.  A path that ends in a slash, in `.` or in `..` is that of a
directory. -/
def WebServer.statRegular (server : WebServer) (filepath : Bytes) : Bool :=
  decide (EndsInName (filepath.splitOn 47)) &&
    server.isRegular (resolvePath server.workingDirectory filepath)

inductive FileResponse where
  | fileNotFound
  | failedToRead
  | file (filepath content : Bytes)
  deriving DecidableEq

/-- The texts that are formatted into `filepath`, one after the other, and the response. -/
structure FileAnswer where
  built : List Bytes
  response : FileResponse

/-- What is appended to the web root. -/
def servedTail (path : Bytes) : Bytes :=
  if path = ascii "/" then ascii "/index.html"
  else if path = ascii "/login" then ascii "/login.html"
  else if path = ascii "/admin.html" then ascii "/admin.html"
  else if (ascii "/admin").isPrefixOf path then
    if path = ascii "/admin" || path = ascii "/admin/" then ascii "/admin.html"
    else path.drop 6
  else path

/-- The paths for which `index.html` is tried instead. -/
def fallsBack (path : Bytes) : Bool :=
  (ascii "/admin").isPrefixOf path || !decide (46 ∈ path.drop 1)

def WebServer.read (server : WebServer) (filepath : Bytes) : FileResponse :=
  match server.readFileContent filepath with
  | none => .failedToRead
  | some content => .file filepath content

def serveAdminFile (server : WebServer) (path : Bytes) : FileAnswer :=
  let filepath := server.webRoot ++ servedTail path
  if server.statRegular filepath then
    { built := [filepath], response := server.read filepath }
  else if fallsBack path then
    let index := server.webRoot ++ ascii "/index.html"
    { built := [filepath, index]
      response := if server.statRegular index then server.read index else .fileNotFound }
  else { built := [filepath], response := .fileNotFound }

/-! ## Containment -/

def WebServer.Inside (server : WebServer) (filepath : Bytes) : Prop :=
  ∃ names ≠ [], resolvePath server.workingDirectory filepath =
    resolvePath server.workingDirectory server.webRoot ++ names

/-- Every text fits the buffer with its `NUL`, and a file that is sent lies inside of the web
root. -/
def ServedSafely (server : WebServer) (path : Bytes) : Prop :=
  (∀ filepath ∈ (serveAdminFile server path).built, filepath.length < 512) ∧
    ∀ filepath content, (serveAdminFile server path).response = .file filepath content →
      server.Inside filepath

def FitsBuffer (length : Nat) (path : Bytes) : Prop :=
  length + (servedTail path).length < 512 ∧ (fallsBack path = true → length + 11 < 512)

/-- Behind its first slash the text ends in no name, or it starts with a slash and never goes up
more often than down. -/
def Harmless (tail : Bytes) : Prop :=
  ((tail.splitOn 47).tail ≠ [] ∧ ¬ EndsInName (tail.splitOn 47).tail) ∨
    ((tail.splitOn 47).head? = some [] ∧ depthBelow 0 (tail.splitOn 47).tail ≠ none)

instance (length : Nat) (path : Bytes) : Decidable (FitsBuffer length path) :=
  inferInstanceAs (Decidable (_ ∧ _))

instance (tail : Bytes) : Decidable (Harmless tail) :=
  inferInstanceAs (Decidable (_ ∨ _))

variable {server : WebServer} {path filepath content : Bytes} {length : Nat}

theorem WebServer.read_eq_file {other : Bytes}
    (sent : server.read other = .file filepath content) : filepath = other := by
  rw [WebServer.read] at sent
  split at sent
  · cases sent
  · exact (FileResponse.file.inj sent).1.symm

theorem WebServer.inside_of_depthBelow {behind : Bytes} {depth : Nat}
    (stays : depthBelow 0 (behind.splitOn 47) = some depth)
    (regular : server.isRegular (resolvePath server.workingDirectory
      (server.webRoot ++ 47 :: behind)) = true) :
    server.Inside (server.webRoot ++ 47 :: behind) := by
  obtain ⟨names, -, leads⟩ := walkComponents_of_depthBelow stays
    (resolvePath server.workingDirectory server.webRoot) (List.length_nil)
  rw [List.append_nil, ← resolvePath_append_cons server.nonempty] at leads
  refine ⟨names, ?_, leads⟩
  rintro rfl
  rw [leads, List.append_nil, server.directories _ (List.prefix_refl _)] at regular
  cases regular

theorem WebServer.inside_of_harmless {tail : Bytes} (harmless : Harmless tail)
    (regular : server.statRegular (server.webRoot ++ tail) = true) :
    server.Inside (server.webRoot ++ tail) := by
  rw [WebServer.statRegular, Bool.and_eq_true, decide_eq_true_eq] at regular
  obtain ⟨endsInName, regular⟩ := regular
  rw [Harmless] at harmless
  rcases splitOn_cases tail with ⟨noSlash, parts⟩ | ⟨first, behind, rfl, noSlash, parts⟩
  · rw [parts] at harmless
    rcases harmless with ⟨some, -⟩ | ⟨empty, -⟩
    · exact absurd rfl some
    · rw [show tail = [] from Option.some.inj empty, List.append_nil,
        server.directories _ (List.prefix_refl _)] at regular
      cases regular
  · rw [parts] at harmless
    rcases harmless with ⟨-, noName⟩ | ⟨empty, stays⟩
    · rw [← List.append_assoc, List.splitOn_append_cons_self,
        endsInName_append (List.splitOn_ne_nil _ _)] at endsInName
      exact absurd endsInName noName
    · obtain ⟨depth, stays⟩ := Option.ne_none_iff_exists'.mp stays
      rw [show first = [] from Option.some.inj empty] at regular ⊢
      exact inside_of_depthBelow stays regular

theorem servedSafely_of_harmless (room : FitsBuffer server.webRoot.length path)
    (harmless : Harmless (servedTail path)) : ServedSafely server path := by
  have first : (server.webRoot ++ servedTail path).length < 512 := by
    rw [List.length_append]
    exact room.1
  have both : fallsBack path = true →
      ∀ filepath ∈ [server.webRoot ++ servedTail path, server.webRoot ++ ascii "/index.html"],
        filepath.length < 512 := by
    intro falls filepath built
    rcases List.mem_cons.mp built with rfl | second
    · exact first
    · rw [List.mem_singleton.mp second, List.length_append]
      exact room.2 falls
  rw [ServedSafely, serveAdminFile]
  simp only
  split_ifs with regular falls indexRegular
  · refine ⟨fun filepath built => ?_, fun filepath content sent => ?_⟩
    · rw [List.mem_singleton.mp built]
      exact first
    · rw [WebServer.read_eq_file sent]
      exact WebServer.inside_of_harmless harmless regular
  · refine ⟨both falls, fun filepath content sent => ?_⟩
    rw [WebServer.read_eq_file sent]
    exact WebServer.inside_of_harmless (by decide) indexRegular
  · exact ⟨both falls, nofun⟩
  · refine ⟨fun filepath built => ?_, nofun⟩
    rw [List.mem_singleton.mp built]
    exact first

/-! ## The other paths -/

/-- A server with one regular file, and a web root of the name in the root directory. -/
def serverWithFile (name : Bytes) (place : List Bytes) (nonempty : name ≠ [])
    (elsewhere : ∀ directory, directory <+: resolvePath [] name → directory ≠ place) :
    WebServer where
  webRoot := name
  workingDirectory := []
  isRegular := fun tested => tested == place
  readFileContent := fun filepath => some filepath
  nonempty := nonempty
  directories := fun directory above => beq_eq_false_iff_ne.mpr (elsewhere directory above)

theorem serveAdminFile_built (server : WebServer) (path : Bytes) :
    server.webRoot ++ servedTail path ∈ (serveAdminFile server path).built := by
  rw [serveAdminFile]
  simp only
  split_ifs
  all_goals exact List.mem_cons_self

theorem fitsBuffer_of_servedSafely (server : WebServer)
    (noFiles : ∀ place, server.isRegular place = false) (safe : ServedSafely server path) :
    FitsBuffer server.webRoot.length path := by
  have notFound : ∀ filepath, server.statRegular filepath = false := fun filepath => by
    rw [WebServer.statRegular, noFiles, Bool.and_false]
  rw [FitsBuffer, ← List.length_append]
  refine ⟨safe.1 _ (serveAdminFile_built server path), fun falls => ?_⟩
  have built : server.webRoot ++ ascii "/index.html" ∈ (serveAdminFile server path).built := by
    rw [serveAdminFile]
    simp [notFound, falls]
  have short := safe.1 _ built
  rw [List.length_append] at short
  exact short

theorem isName_replicate {letter : UInt8} (isLetter : letter ∉ ([46, 47] : Bytes))
    (positive : 1 ≤ length) (others : Bytes) :
    IsName (List.replicate length letter ++ others) := by
  obtain ⟨length, rfl⟩ := Nat.exists_eq_add_of_le' positive
  rw [List.replicate_succ, List.cons_append, IsName]
  simp only [List.mem_cons, List.not_mem_nil, or_false, not_or] at isLetter ⊢
  refine ⟨List.cons_ne_nil _ _, fun same => isLetter.1 (List.cons.inj same).1, fun same =>
    isLetter.1 (List.cons.inj same).1⟩

section Letters

variable {letter : UInt8} {length : Nat}

theorem not_mem_replicate (isLetter : letter ∉ ([46, 47] : Bytes)) (length : Nat) :
    47 ∉ List.replicate length letter := by
  intro slash
  rw [← (List.mem_replicate.mp slash).2] at isLetter
  exact isLetter (by decide)

theorem splitOn_replicate_append (isLetter : letter ∉ ([46, 47] : Bytes)) (length : Nat)
    {tail first : Bytes} {more : List Bytes} (parts : tail.splitOn 47 = first :: more) :
    (List.replicate length letter ++ tail).splitOn 47 =
      (List.replicate length letter ++ first) :: more := by
  have noSlash := not_mem_replicate isLetter length
  rcases splitOn_cases tail with ⟨single, same⟩ | ⟨front, behind, rfl, frontSingle, same⟩
  · obtain ⟨rfl, rfl⟩ := List.cons.inj (parts.symm.trans same)
    refine List.splitOn_eq_singleton fun slash => ?_
    rcases List.mem_append.mp slash with inName | inTail
    · exact noSlash inName
    · exact single inTail
  · obtain ⟨rfl, rfl⟩ := List.cons.inj (parts.symm.trans same)
    rw [← List.append_assoc]
    refine List.splitOn_append_cons_self_of_not_mem (fun slash => ?_) behind
    rcases List.mem_append.mp slash with inName | inFirst
    · exact noSlash inName
    · exact frontSingle inFirst

theorem resolvePath_replicate_append (isLetter : letter ∉ ([46, 47] : Bytes))
    (positive : 1 ≤ length) {tail first : Bytes} {more : List Bytes}
    (parts : tail.splitOn 47 = first :: more) :
    resolvePath [] (List.replicate length letter ++ tail) =
      walkComponents [List.replicate length letter ++ first] more := by
  rw [resolvePath, ite_self, splitOn_replicate_append isLetter length parts, walkComponents_cons,
    enterComponent_name (isName_replicate isLetter positive first), List.nil_append]

theorem resolvePath_replicate (isLetter : letter ∉ ([46, 47] : Bytes)) (positive : 1 ≤ length) :
    resolvePath [] (List.replicate length letter) = [List.replicate length letter] := by
  have resolved := resolvePath_replicate_append isLetter positive (List.splitOn_nil 47)
  rw [List.append_nil] at resolved
  exact resolved

end Letters

/-- A path that is not harmless leads out of a web root of any length. -/
theorem exists_outside {tail : Bytes} (harmful : ¬ Harmless tail) (positive : 1 ≤ length) :
    ∃ name : Bytes, name.length = length ∧ resolvePath [] name = [name] ∧
      EndsInName ((name ++ tail).splitOn 47) ∧
        ¬ resolvePath [] (name ++ tail) <+: [name] ∧
          ¬ [name] <+: resolvePath [] (name ++ tail) := by
  obtain ⟨first, more, parts⟩ := List.exists_cons_of_ne_nil (List.splitOn_ne_nil 47 tail)
  rw [Harmless, parts, not_or, List.tail_cons, not_and_not_right, List.head?_cons,
    not_and_not_right] at harmful
  obtain ⟨endsInName, leaves⟩ := harmful
  have ends : ∀ {letter : UInt8}, letter ∉ ([46, 47] : Bytes) →
      EndsInName ((List.replicate length letter ++ tail).splitOn 47) := by
    intro letter isLetter
    rw [splitOn_replicate_append isLetter length parts]
    by_cases single : more = []
    · rw [single]
      exact ⟨_, rfl, isName_replicate isLetter positive first⟩
    · have joined : ∀ front : Bytes, EndsInName ([front] ++ more) := fun front =>
        (endsInName_append single).mpr (endsInName single)
      exact joined _
  cases depth : depthBelow 0 more with
  | some last =>
      -- A part in front of the first slash names another directory beside the web root.
      have notEmpty : first ≠ [] := fun empty => by
        have none := leaves (congrArg some empty)
        rw [depth] at none
        cases none
      have isLetter : (118 : UInt8) ∉ ([46, 47] : Bytes) := by
        decide
      have different : List.replicate length (118 : UInt8) ++ first ≠ List.replicate length 118 :=
        fun same => notEmpty (List.append_right_eq_self.mp same)
      obtain ⟨names, -, leads⟩ := walkComponents_of_depthBelow depth
        [List.replicate length 118 ++ first] (List.length_nil)
      rw [List.append_nil] at leads
      refine ⟨List.replicate length 118, List.length_replicate,
        resolvePath_replicate isLetter positive, ends isLetter, ?_, ?_⟩
      · rw [resolvePath_replicate_append isLetter positive parts, leads]
        intro above
        exact different (List.cons_prefix_cons.mp above).1
      · rw [resolvePath_replicate_append isLetter positive parts, leads]
        intro below
        exact different (List.cons_prefix_cons.mp below).1.symm
  | none =>
      -- The path goes on from the root directory, and the web root is named otherwise.
      obtain ⟨rest, leads⟩ := walkComponents_of_leaves depth
      have some : more ≠ [] := by
        rintro rfl
        cases depth
      have place : ∀ letter : UInt8, letter ∉ ([46, 47] : Bytes) →
          resolvePath [] (List.replicate length letter ++ tail) = walkComponents [] rest := by
        intro letter isLetter
        rw [resolvePath_replicate_append isLetter positive parts]
        exact leads [] _ [] rfl
      have nonempty : walkComponents [] rest ≠ [] := by
        rw [← leads [] first [] rfl]
        exact walkComponents_ne_nil (endsInName some) _
      obtain ⟨head, others, result⟩ := List.exists_cons_of_ne_nil nonempty
      obtain ⟨letter, isLetter, different⟩ : ∃ letter : UInt8, letter ∉ ([46, 47] : Bytes) ∧
          List.replicate length letter ≠ head := by
        by_cases same : List.replicate length (118 : UInt8) = head
        · refine ⟨119, by decide, fun other => ?_⟩
          obtain ⟨length, rfl⟩ := Nat.exists_eq_add_of_le' positive
          exact absurd (List.cons.inj (same.trans other.symm)).1 (by decide)
        · exact ⟨118, by decide, same⟩
      refine ⟨List.replicate length letter, List.length_replicate,
        resolvePath_replicate isLetter positive, ends isLetter, ?_, ?_⟩
      · rw [place letter isLetter, result]
        intro above
        exact different (List.cons_prefix_cons.mp above).1.symm
      · rw [place letter isLetter, result]
        intro below
        exact different (List.cons_prefix_cons.mp below).1

theorem harmless_of_servedSafely (positive : 1 ≤ length)
    (safe : ∀ server : WebServer, server.webRoot.length = length → ServedSafely server path) :
    Harmless (servedTail path) := by
  by_contra harmful
  obtain ⟨name, sameLength, webRoot, endsInName, notAbove, notBelow⟩ :=
    exists_outside harmful positive
  have nonempty : name ≠ [] := List.ne_nil_of_length_pos (by omega)
  have elsewhere : ∀ directory, directory <+: resolvePath [] name →
      directory ≠ resolvePath [] (name ++ servedTail path) := by
    rintro directory above rfl
    exact notAbove (webRoot ▸ above)
  let server := serverWithFile name _ nonempty elsewhere
  have regular : server.statRegular (name ++ servedTail path) = true := by
    rw [WebServer.statRegular, decide_eq_true endsInName, Bool.true_and]
    exact beq_self_eq_true _
  have sent : (serveAdminFile server path).response =
      .file (name ++ servedTail path) (name ++ servedTail path) := by
    rw [serveAdminFile]
    exact congrArg FileAnswer.response (if_pos regular)
  obtain ⟨names, -, inside⟩ := (safe server sameLength).2 _ _ sent
  refine notBelow ?_
  rw [← webRoot]
  exact ⟨names, inside.symm⟩

theorem fitsBuffer_of_forall (positive : 1 ≤ length)
    (safe : ∀ server : WebServer, server.webRoot.length = length → ServedSafely server path) :
    FitsBuffer length path := by
  let server : WebServer :=
    { webRoot := List.replicate length 118
      workingDirectory := []
      isRegular := fun _ => false
      readFileContent := fun _ => none
      nonempty := List.ne_nil_of_length_pos (by rw [List.length_replicate]; exact positive)
      directories := fun _ _ => rfl }
  have sameLength : server.webRoot.length = length := List.length_replicate
  have room := fitsBuffer_of_servedSafely server (fun _ => rfl) (safe server sameLength)
  rwa [sameLength] at room

/-- With web roots of the length, whatever their names and the files are, the path is served
safely if and only if it fits and leads out of no directory. -/
theorem servedSafely_iff (path : Bytes) {length : Nat} (positive : 1 ≤ length) :
    (isAdminRoute path = true → ∀ server : WebServer, server.webRoot.length = length →
        ServedSafely server path) ↔
      (isAdminRoute path = true → FitsBuffer length path ∧ Harmless (servedTail path)) := by
  refine imp_congr_right fun _ => ⟨fun safe => ?_, ?_⟩
  · exact ⟨fitsBuffer_of_forall positive safe, harmless_of_servedSafely positive safe⟩
  · rintro ⟨room, harmless⟩ server rfl
    exact servedSafely_of_harmless room harmless

theorem servedSafely_iff_style :
    1 ≤ 12 ∧ (isAdminRoute (ascii "/css/./a/../style.css") = true →
      ∀ server : WebServer, server.webRoot.length = 12 →
        ServedSafely server (ascii "/css/./a/../style.css")) :=
  ⟨by decide, (servedSafely_iff (ascii "/css/./a/../style.css") (by decide)).mpr (by decide)⟩

/-- A web root with a file beside it. -/
def wwwServer : WebServer where
  webRoot := ascii "/srv/www"
  workingDirectory := []
  isRegular := fun place => decide (place = [ascii "srv", ascii "secret.txt"])
  readFileContent := fun _ => some (ascii "secret")
  nonempty := by decide
  directories := by
    intro directory above
    refine decide_eq_false fun same => ?_
    rw [same] at above
    exact absurd above (by decide)

theorem not_servedSafely_dots :
    isAdminRoute (ascii "/../secret.txt") = true ∧
      (serveAdminFile wwwServer (ascii "/../secret.txt")).response =
        .file (ascii "/srv/www/../secret.txt") (ascii "secret") ∧
        ¬ ServedSafely wwwServer (ascii "/../secret.txt") := by
  have sent : (serveAdminFile wwwServer (ascii "/../secret.txt")).response =
      .file (ascii "/srv/www/../secret.txt") (ascii "secret") := by
    decide
  refine ⟨by decide, sent, fun safe => ?_⟩
  obtain ⟨names, -, inside⟩ := safe.2 _ _ sent
  have below : resolvePath [] (ascii "/srv/www") <+:
      resolvePath [] (ascii "/srv/www/../secret.txt") :=
    ⟨names, inside.symm⟩
  exact absurd below (by decide)

end Jdbx
