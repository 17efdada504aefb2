import Jdbx.Core.RequestHeads
import Mathlib.Data.List.DropRight
import Mathlib.Data.List.TakeDrop

/-!
# What `parse_http_request` takes from a header line

Each branch reads from an offset of its own on, which is one byte behind the colon, and skips
spaces from there.  The byte behind the colon is never looked at, and nothing is cut off at the
end of the line.
-/

namespace Jdbx

open Library

/-! ## Headers -/

/-- The headers that `parse_http_request` looks for. -/
inductive HeaderField where
  | contentType
  | contentLength
  | authorization
  | cookie
  | origin
  | userAgent
  | connection
  deriving DecidableEq, Repr

namespace HeaderField

def all : List HeaderField :=
  [contentType, contentLength, authorization, cookie, origin, userAgent, connection]

def word : HeaderField → Bytes
  | contentType => ascii "Content-Type"
  | contentLength => ascii "Content-Length"
  | authorization => ascii "Authorization"
  | cookie => ascii "Cookie"
  | origin => ascii "Origin"
  | userAgent => ascii "User-Agent"
  | connection => ascii "Connection"

def ofLine (line : Bytes) : Option HeaderField :=
  all.find? fun field => startsWithIgnoringCase (field.word ++ [58]) line

def offset (field : HeaderField) : Nat :=
  field.word.length + 2

/-- What the value of a `Connection` header asks for. -/
def keepsAlive (value : Bytes) : Option Bool :=
  if startsWithIgnoringCase (ascii "keep-alive") value then some true
  else if startsWithIgnoringCase (ascii "close") value then some false
  else none

/-- What is stored for a value of the header. -/
def store (value : Bytes) (request : HttpRequest) : HeaderField → HttpRequest
  | contentType => { request with contentType := some value }
  | contentLength => { request with contentLength := (atoi value).toInt64.toUInt64 }
  | authorization => { request with authorization := some value }
  | cookie => { request with cookieHeader := some value }
  | origin => { request with origin := some value }
  | userAgent => { request with userAgent := some value }
  | connection => { request with keepAlive := (keepsAlive value).getD request.keepAlive }

def alike (value other : Bytes) : HeaderField → Bool
  | contentLength => atoi value = atoi other
  | connection => keepsAlive value = keepsAlive other
  | _ => value = other

def behind (rest : Bytes) : HeaderField → Bytes
  | contentLength => rest
  | _ => rest.dropWhile (· = 32)

def read (line : Bytes) (field : HeaderField) : Bytes :=
  cString (field.behind (line.drop field.offset))

theorem applyHeader_eq (request : HttpRequest) (line : Bytes) :
    applyHeader request line =
      (ofLine (cString line)).elim request fun field => field.store (field.read line) request := by
  have connectionStore : ∀ value : Bytes,
      connection.store value request =
        if startsWithIgnoringCase (ascii "keep-alive") value then
          { request with keepAlive := true }
        else if startsWithIgnoringCase (ascii "close") value then
          { request with keepAlive := false }
        else request := by
    intro value
    rw [store, keepsAlive]
    split_ifs <;> rfl
  have search : ofLine (cString line) =
      if startsWithIgnoringCase (ascii "Content-Type:") (cString line) then some contentType
      else if startsWithIgnoringCase (ascii "Content-Length:") (cString line) then
        some contentLength
      else if startsWithIgnoringCase (ascii "Authorization:") (cString line) then
        some authorization
      else if startsWithIgnoringCase (ascii "Cookie:") (cString line) then some cookie
      else if startsWithIgnoringCase (ascii "Origin:") (cString line) then some origin
      else if startsWithIgnoringCase (ascii "User-Agent:") (cString line) then some userAgent
      else if startsWithIgnoringCase (ascii "Connection:") (cString line) then some connection
      else none := by
    have names : ∀ text : String, ∀ field : HeaderField, field.word ++ [58] = ascii text →
        startsWithIgnoringCase (field.word ++ [58]) (cString line) =
          startsWithIgnoringCase (ascii text) (cString line) :=
      fun text field same => congrArg (startsWithIgnoringCase · (cString line)) same
    simp only [ofLine, all, List.find?_cons, List.find?_nil,
      names "Content-Type:" contentType (by decide),
      names "Content-Length:" contentLength (by decide),
      names "Authorization:" authorization (by decide), names "Cookie:" cookie (by decide),
      names "Origin:" origin (by decide), names "User-Agent:" userAgent (by decide),
      names "Connection:" connection (by decide)]
    split_ifs <;> simp only [*]
  rw [search, applyHeader]
  rw [← connectionStore (headerValue line 12)]
  split_ifs <;> rfl

end HeaderField

def trim (text : Bytes) : Bytes :=
  (text.dropWhile isspace).rdropWhile isspace

theorem trim_append_of_space {spaces : Bytes} (space : ∀ byte ∈ spaces, isspace byte = true)
    (text : Bytes) : trim (spaces ++ text) = trim text := by
  rw [trim, List.dropWhile_append_of_pos space, trim]

theorem eq_trim_iff (first : UInt8) (rest : Bytes) :
    rest.dropWhile (· = 32) = trim (first :: rest) ↔
      isspace first = true ∧ trim (rest.dropWhile (· = 32)) = rest.dropWhile (· = 32) := by
  have behind : isspace first = true →
      trim (first :: rest) = trim (rest.dropWhile (· = 32)) := by
    intro space
    have spaces : ∀ byte ∈ first :: rest.takeWhile (· = 32), isspace byte = true := by
      intro byte member
      rcases List.mem_cons.mp member with rfl | member
      · exact space
      · have blank : byte = 32 := by simpa using List.mem_takeWhile_imp member
        rw [blank]
        decide
    have whole := trim_append_of_space spaces (rest.dropWhile (· = 32))
    rwa [List.cons_append, List.takeWhile_append_dropWhile] at whole
  constructor
  · intro same
    by_cases space : isspace first = true
    · exact ⟨space, by rw [← behind space, ← same]⟩
    · -- The trimmed text begins with the first byte, which the read one has passed.
      have kept : trim (first :: rest) = (first :: rest).rdropWhile isspace := by
        rw [trim, List.dropWhile_cons_of_neg space]
      rw [kept] at same
      have isEnd : rest.dropWhile (· = 32) <:+ first :: rest :=
        (List.dropWhile_suffix _).trans (List.suffix_cons first rest)
      have nonempty : (first :: rest).rdropWhile isspace ≠ [] := by
        intro empty
        exact space (List.rdropWhile_eq_nil_iff.mp empty first List.mem_cons_self)
      have lastByte := getLast?_of_suffix isEnd (same ▸ nonempty)
      have visible := List.rdropWhile_last_not isspace (first :: rest) nonempty
      have whole : (first :: rest).rdropWhile isspace = first :: rest := by
        rw [List.rdropWhile_eq_self_iff]
        intro present
        rw [same, List.getLast?_eq_some_getLast nonempty,
          List.getLast?_eq_some_getLast present, Option.some.injEq] at lastByte
        rwa [← lastByte]
      rw [whole] at same
      have shorter := (List.dropWhile_suffix (l := rest) (· = (32 : UInt8))).length_le
      rw [same, List.length_cons] at shorter
      omega
  · rintro ⟨space, trimmed⟩
    rw [behind space, trimmed]

/-! ## Header lines -/

/-- A header line without its end: a name, and behind the colon optional white space and the
value. -/
structure HeaderLine where
  name : Bytes
  text : Bytes
  namePlain : ∀ byte ∈ ([0, 10, 13, 58] : Bytes), byte ∉ name
  textPlain : ∀ byte ∈ ([0, 10, 13] : Bytes), byte ∉ text

namespace HeaderLine

def line (header : HeaderLine) : Bytes :=
  header.name ++ 58 :: header.text

def field (header : HeaderLine) : Option HeaderField :=
  HeaderField.all.find? fun field => field.word.map tolower = header.name.map tolower

def store (header : HeaderLine) (request : HttpRequest) : HttpRequest :=
  header.field.elim request (HeaderField.store (trim header.text) request)

end HeaderLine

def HeaderField.readsRight : HeaderField → Bytes → Bool
  | _, [] => false
  | .contentLength, first :: rest => atoi rest = atoi (trim (first :: rest))
  | .connection, first :: rest =>
    keepsAlive (rest.dropWhile (· = 32)) = keepsAlive (trim (first :: rest))
  | _, first :: rest => isspace first && trim (rest.dropWhile (· = 32)) = rest.dropWhile (· = 32)

section Lines

theorem tolower_eq_colon {byte : UInt8} : tolower byte = 58 ↔ byte = 58 := by
  rw [tolower]
  grind

theorem prefix_stop_iff {stop : UInt8} : ∀ {word name : Bytes} (text : Bytes),
    stop ∉ word → stop ∉ name → (word ++ [stop] <+: name ++ stop :: text ↔ word = name) := by
  intro word
  induction word with
  | nil =>
    intro name text _ nameFree
    cases name with
    | nil => simp
    | cons byte name =>
      have differs : stop ≠ byte := fun same => nameFree (same ▸ List.mem_cons_self)
      simp [List.cons_prefix_cons, differs]
  | cons first word ih =>
    intro name text wordFree nameFree
    cases name with
    | nil =>
      have differs : first ≠ stop := fun same => wordFree (same ▸ List.mem_cons_self)
      simp [List.cons_prefix_cons, differs]
    | cons byte name =>
      have later := ih text
        (fun member => wordFree (List.mem_cons_of_mem first member))
        (fun member => nameFree (List.mem_cons_of_mem byte member))
      rw [List.cons_append, List.cons_append, List.cons_prefix_cons, later, List.cons.injEq]

theorem startsWith_line (field : HeaderField) (header : HeaderLine) :
    startsWithIgnoringCase (field.word ++ [58]) header.line =
      decide (field.word.map tolower = header.name.map tolower) := by
  have wordFree : (58 : UInt8) ∉ field.word.map tolower := by
    cases field <;> decide
  have nameFree : (58 : UInt8) ∉ header.name.map tolower := by
    intro member
    obtain ⟨byte, inside, colon⟩ := List.mem_map.mp member
    exact header.namePlain 58 (by decide) (tolower_eq_colon.mp colon ▸ inside)
  have colon : tolower 58 = 58 := by decide
  rw [Bool.eq_iff_iff, decide_eq_true_iff, startsWithIgnoringCase, List.isPrefixOf_iff_prefix,
    HeaderLine.line, List.map_append, List.map_append, List.map_cons, List.map_cons, List.map_nil,
    colon]
  exact prefix_stop_iff _ wordFree nameFree

theorem ofLine_line (header : HeaderLine) : HeaderField.ofLine header.line = header.field := by
  rw [HeaderField.ofLine, HeaderLine.field]
  simp only [startsWith_line]

theorem offset_of_field {header : HeaderLine} {field : HeaderField} (named : field ∈ header.field) :
    field.offset = header.name.length + 2 := by
  have same := List.find?_some named
  have length := congrArg List.length (of_decide_eq_true same)
  rw [List.length_map, List.length_map] at length
  rw [HeaderField.offset, length]

theorem line_plain (header : HeaderLine) :
    header.line ≠ [] ∧ ∀ byte ∈ ([0, 10, 13] : Bytes), byte ∉ header.line := by
  refine ⟨by simp [HeaderLine.line], ?_⟩
  intro byte ending member
  rcases List.mem_append.mp member with inName | behind
  · exact header.namePlain byte (by revert ending; simp; tauto) inName
  · rcases List.mem_cons.mp behind with rfl | inText
    · exact absurd ending (by decide)
    · exact header.textPlain byte ending inText

theorem store_eq_iff (field : HeaderField) (value other : Bytes) :
    (∀ request, field.store value request = field.store other request) ↔
      field.alike value other = true := by
  constructor
  · intro same
    have empty := same emptyHttpRequest
    cases field with
    | contentType => exact decide_eq_true (Option.some.inj (congrArg HttpRequest.contentType empty))
    | contentLength =>
      exact decide_eq_true (contentLength_inj (congrArg HttpRequest.contentLength empty))
    | authorization =>
      exact decide_eq_true (Option.some.inj (congrArg HttpRequest.authorization empty))
    | cookie => exact decide_eq_true (Option.some.inj (congrArg HttpRequest.cookieHeader empty))
    | origin => exact decide_eq_true (Option.some.inj (congrArg HttpRequest.origin empty))
    | userAgent => exact decide_eq_true (Option.some.inj (congrArg HttpRequest.userAgent empty))
    | connection =>
      -- Without a word of the header the old flag stays, which may be either.
      have off := congrArg HttpRequest.keepAlive empty
      have on := congrArg HttpRequest.keepAlive (same { emptyHttpRequest with keepAlive := true })
      simp only [HeaderField.store, emptyHttpRequest] at off on
      rw [HeaderField.alike, decide_eq_true_iff]
      cases first : HeaderField.keepsAlive value <;>
        cases second : HeaderField.keepsAlive other <;> simp_all
  · intro alike request
    cases field with
    | contentLength => simp only [HeaderField.store, of_decide_eq_true alike]
    | connection => simp only [HeaderField.store, of_decide_eq_true alike]
    | _ => rw [of_decide_eq_true alike]

theorem readsRight_cons (field : HeaderField) (first : UInt8) (rest : Bytes) :
    field.readsRight (first :: rest) = field.alike (field.behind rest) (trim (first :: rest)) := by
  have copied : (isspace first && decide (trim (rest.dropWhile (· = 32)) = rest.dropWhile (· = 32)))
      = decide (rest.dropWhile (· = 32) = trim (first :: rest)) := by
    rw [Bool.eq_iff_iff, Bool.and_eq_true, decide_eq_true_iff, decide_eq_true_iff, eq_trim_iff]
  cases field with
  | contentLength => rfl
  | connection => rfl
  | _ => exact copied

end Lines

/-! ## A request -/

/-- A request text: the request line, header lines and a body. -/
structure RequestMessage where
  requestLine : Bytes
  headers : List HeaderLine
  body : Bytes
  linePlain : requestLine ≠ [] ∧ ∀ byte ∈ ([0, 10, 13] : Bytes), byte ∉ requestLine
  bodyFree : NulFree body

namespace RequestMessage

variable (message : RequestMessage)

def head : Bytes :=
  headText (message.requestLine :: message.headers.map HeaderLine.line)

def text : Bytes :=
  message.head ++ message.body

def expected : HttpRequest :=
  parseCookies (message.headers.foldl (fun request header => header.store request)
    (applyRequestLine emptyHttpRequest message.requestLine))

def announcedLength : UInt64 :=
  message.headers.foldl (fun length header =>
    if header.field = some .contentLength then (atoi (trim header.text)).toInt64.toUInt64
    else length) 0

end RequestMessage

/-- A read of a header line stores what the line has, whatever the request is, and ends at the
`NUL` of the line. -/
structure HeaderStored (header : HeaderLine) (read : Nat × Bytes) : Prop where
  stored : ∀ request, applyHeader request read.2 = header.store request
  inside : ∀ field ∈ header.field,
    field.offset + (cString (read.2.drop field.offset)).length ≤ (cString read.2).length

/-- The header lines are read one by one and nothing else is read as a header, the fields of the
request are what the lines have, and the body is as long as the content length.  A request is
made of every text: with a shorter body it is not refused. -/
structure ParsedRight (message : RequestMessage) (behind : Bytes) : Prop where
  reads : ∃ inHead inBody, headerReads message.text behind = inHead ++ inBody ∧
    List.Forall₂ HeaderStored message.headers inHead ∧
      ∀ read ∈ inBody, isHeaderLine (cString read.2) = false
  fields : (parseHttpRequest message.text behind).withoutBody = message.expected.withoutBody
  enough : (parseHttpRequest message.text behind).contentLength.toNat ≤ message.body.length
  body : (parseHttpRequest message.text behind).body.getD [] =
    message.body.take (parseHttpRequest message.text behind).contentLength.toNat

/-- Every header line is read right, no line of the body looks like one, and the announced
length, if there is one, is that of the body. -/
structure WellFramed (message : RequestMessage) : Prop where
  headers : ∀ header ∈ message.headers, ∀ field ∈ header.field, field.readsRight header.text = true
  body : ∀ line ∈ linesOf message.body, isHeaderLine line.1 = false
  length : message.announcedLength = 0 ∨ message.announcedLength.toNat = message.body.length

section Reading

variable {message : RequestMessage} {reads : List (Nat × Bytes)}

theorem headerStored_iff (header : HeaderLine) (start : Nat) (tail : Bytes) :
    HeaderStored header (start, header.line ++ 0 :: tail) ↔
      ∀ field ∈ header.field, field.readsRight header.text = true := by
  have lineFree : NulFree header.line := (line_plain header).2 0 (by decide)
  have text : cString (header.line ++ 0 :: tail) = header.line := cString_append_nul lineFree tail
  have applied : ∀ request, applyHeader request (header.line ++ 0 :: tail) =
      header.field.elim request
        fun field => field.store (field.read (header.line ++ 0 :: tail)) request := by
    intro request
    rw [HeaderField.applyHeader_eq, text, ofLine_line]
  cases named : header.field with
  | none =>
    refine iff_of_true ⟨?_, by simp [named]⟩ (by simp)
    intro request
    rw [applied, HeaderLine.store, named]
    rfl
  | some field =>
    have offset : field.offset = header.name.length + 2 := offset_of_field named
    have length : header.line.length = header.name.length + (header.text.length + 1) := by
      rw [HeaderLine.line, List.length_append, List.length_cons]
    simp only [Option.mem_some_iff, forall_eq']
    cases layout : header.text with
    | nil =>
      -- The read starts behind the `NUL`.
      refine iff_of_false ?_ (by cases field <;> exact Bool.false_ne_true)
      intro stored
      have inside := stored.inside field named
      simp only [text] at inside
      rw [length, layout, List.length_nil] at inside
      omega
    | cons first rest =>
      have dropped : (header.line ++ 0 :: tail).drop field.offset = rest ++ 0 :: tail := by
        rw [offset, HeaderLine.line, layout, List.append_assoc, ← List.drop_drop,
          List.drop_left]
        rfl
      have restFree : NulFree rest := by
        intro nul
        apply header.textPlain 0 (by decide)
        rw [layout]
        exact List.mem_cons_of_mem first nul
      have read : field.read (header.line ++ 0 :: tail) = field.behind rest := by
        rw [HeaderField.read, dropped]
        have blank : headerValue (rest ++ 0 :: tail) 0 = rest.dropWhile (· = 32) :=
          headerValue_append_nul restFree (Nat.zero_le _) tail
        cases field with
        | contentLength => exact cString_append_nul restFree tail
        | _ => exact blank
      rw [readsRight_cons, ← layout, ← store_eq_iff]
      constructor
      · intro stored request
        have same := stored.stored request
        rwa [applied, HeaderLine.store, named, Option.elim_some, Option.elim_some, read] at same
      · intro same
        refine ⟨?_, ?_⟩
        · intro request
          rw [applied, HeaderLine.store, named, Option.elim_some, Option.elim_some, read]
          exact same request
        · intro other also
          obtain rfl := Option.some.inj (named.symm.trans also)
          simp only [text]
          rw [dropped, cString_append_nul restFree, length, layout, List.length_cons]
          omega

theorem linesOf_cons {byte : UInt8} (ending : byte ∈ ([13, 10] : Bytes)) (text : Bytes) :
    linesOf (byte :: text) = linesOf text := by
  have skip : strtok [13, 10] (byte :: text) = strtok [13, 10] text := by
    rw [strtok, strtok, List.dropWhile_cons_of_pos (by simpa using ending)]
  cases call : strtok [13, 10] text with
  | none => rw [linesOf, linesOf, tokens_of_none call, tokens_of_none (skip.trans call)]
  | some parts => rw [linesOf, linesOf, tokens_of_some call, tokens_of_some (skip.trans call)]

theorem linesOf_headText {lines : List Bytes}
    (plain : ∀ line ∈ lines, line ≠ [] ∧ ∀ byte ∈ ([0, 10, 13] : Bytes), byte ∉ line) :
    (linesOf (headText lines)).map Prod.fst = lines := by
  induction lines with
  | nil => rfl
  | cons line lines ih =>
    rw [List.forall_mem_cons] at plain
    have inside : ∀ byte ∈ line, byte ∉ ([13, 10] : Bytes) := by
      intro byte member ending
      exact plain.1.2 byte (by revert ending; simp; tauto) member
    have layout : headText (line :: lines) = line ++ 13 :: 10 :: headText lines := by
      rw [headText, List.flatMap_cons, List.append_assoc, List.append_assoc]
      rfl
    have call : strtok [13, 10] (line ++ 13 :: 10 :: headText lines) =
        some (line, 10 :: headText lines) := strtok_cons (by decide) plain.1.1 inside _
    rw [layout, linesOf, tokens_of_some call, List.map_cons]
    change line :: (linesOf (10 :: headText lines)).map Prod.fst = _
    rw [linesOf_cons (by decide), ih plain.2]

theorem forall₂_of_map {relation : Nat × Bytes → Bytes × Bytes → Prop}
    {lines : List (Bytes × Bytes)} (related : List.Forall₂ relation reads lines) :
    ∀ {headers : List HeaderLine}, lines.map Prod.fst = headers.map HeaderLine.line →
      List.Forall₂ (fun header read => ∃ rest, relation read (header.line, rest)) headers
        reads := by
  induction related with
  | nil =>
    intro headers same
    rw [List.map_nil, eq_comm, List.map_eq_nil_iff] at same
    exact same ▸ .nil
  | @cons read line _ _ first _ ih =>
    intro headers same
    rw [List.map_cons, eq_comm, List.map_eq_cons_iff] at same
    obtain ⟨header, later, rfl, isLine, rest⟩ := same
    refine .cons ⟨line.2, ?_⟩ (ih rest.symm)
    rw [isLine]
    exact first

theorem message_plain (message : RequestMessage) :
    ∀ line ∈ message.requestLine :: message.headers.map HeaderLine.line,
      line ≠ [] ∧ ∀ byte ∈ ([0, 10, 13] : Bytes), byte ∉ line := by
  intro line member
  rcases List.mem_cons.mp member with rfl | inHeaders
  · exact message.linePlain
  · obtain ⟨header, -, rfl⟩ := List.mem_map.mp inHeaders
    exact line_plain header

theorem message_head_nulFree (message : RequestMessage) : NulFree message.head := by
  intro nul
  rcases List.mem_append.mp nul with inLines | inEnd
  · obtain ⟨line, member, inLine⟩ := List.mem_flatMap.mp inLines
    rcases List.mem_append.mp inLine with inside | atEnd
    · exact (message_plain message line member).2 0 (by decide) inside
    · exact absurd atEnd (by decide)
  · exact absurd inEnd (by decide)

theorem reads_eq (message : RequestMessage) (behind : Bytes) : ∃ start inHead inBody,
    ∃ tail, readHeaderLines (message.text.length + 2) (message.text ++ 0 :: behind) 0 =
        (start, message.requestLine ++ 0 :: tail) :: (inHead ++ inBody) ∧
      List.Forall₂ (fun header read => ∃ tail, read.2 = header.line ++ 0 :: tail)
        message.headers inHead ∧
      List.Forall₂ (ReadInBody message.head.length message.text.length) inBody
        (linesOf message.body) := by
  have plain := message_plain message
  have isHead : IsRequestHead message.head := findText_headText plain (List.cons_ne_nil _ _)
  have headFree := message_head_nulFree message
  obtain ⟨inHead, inBody, reads, headLines, bodyLines⟩ :=
    readHeaderLines_whole isHead headFree message.bodyFree behind
  have lines := linesOf_headText plain
  rw [List.map_eq_cons_iff] at lines
  obtain ⟨first, later, split, isFirst, rest⟩ := lines
  rw [RequestMessage.head, split] at headLines
  obtain ⟨read, others, inFirst, related, rfl⟩ := List.forall₂_cons_right_iff.mp headLines
  have memory := inFirst.memory
  rw [isFirst] at memory
  refine ⟨read.1, others, inBody, first.2 ++ (message.body ++ 0 :: behind), ?_, ?_, bodyLines⟩
  · rw [← memory]
    exact reads
  · refine (forall₂_of_map related rest).imp ?_
    intro header read found
    obtain ⟨behind, inHead⟩ := found
    exact ⟨_, inHead.memory⟩

theorem forall₂_stored_iff {headers : List HeaderLine}
    (related : List.Forall₂ (fun header read => ∃ tail, read.2 = header.line ++ 0 :: tail)
      headers reads) : List.Forall₂ HeaderStored headers reads ↔
        ∀ header ∈ headers, ∀ field ∈ header.field, field.readsRight header.text = true := by
  induction related with
  | nil => exact iff_of_true .nil nofun
  | @cons header read _ _ first _ ih =>
    obtain ⟨tail, memory⟩ := first
    have one := headerStored_iff header read.1 tail
    rw [← memory] at one
    rw [List.forall₂_cons, List.forall_mem_cons, ih, ← one]

theorem foldl_of_stored {headers : List HeaderLine}
    (stored : List.Forall₂ HeaderStored headers reads) : ∀ request,
      reads.foldl (fun request read => applyHeader request read.2) request =
        headers.foldl (fun request header => header.store request) request := by
  induction stored with
  | nil => exact fun request => rfl
  | cons first _ ih =>
    intro request
    rw [List.foldl_cons, List.foldl_cons, first.stored, ih]

theorem store_contentLength (header : HeaderLine) (request : HttpRequest) :
    (header.store request).contentLength =
      if header.field = some .contentLength then (atoi (trim header.text)).toInt64.toUInt64
      else request.contentLength := by
  rw [HeaderLine.store]
  cases header.field with
  | none => rfl
  | some field => cases field <;> rfl

theorem foldl_store_contentLength (headers : List HeaderLine) : ∀ request : HttpRequest,
    (headers.foldl (fun request header => header.store request) request).contentLength =
      headers.foldl (fun length header =>
        if header.field = some .contentLength then (atoi (trim header.text)).toInt64.toUInt64
        else length) request.contentLength := by
  induction headers with
  | nil => exact fun request => rfl
  | cons header headers ih =>
    intro request
    rw [List.foldl_cons, List.foldl_cons, ih, store_contentLength]

theorem expected_contentLength (message : RequestMessage) :
    message.expected.contentLength = message.announcedLength := by
  have start : (applyRequestLine emptyHttpRequest message.requestLine).contentLength = 0 := by
    rw [applyRequestLine]
    dsimp only
    split <;> rfl
  rw [RequestMessage.expected, (parseCookies_fields _).2.2, foldl_store_contentLength, start,
    RequestMessage.announcedLength]

theorem message_body (message : RequestMessage) (behind : Bytes) :
    (parseHttpRequest message.text behind).body =
      if (parseHttpRequest message.text behind).contentLength > 0 then some message.body
      else none := by
  have search : findText [13, 10, 13, 10] message.text = some ([13, 10, 13, 10] ++ message.body) :=
    findText_append (findText_headText (message_plain message) (List.cons_ne_nil _ _)) message.body
  rw [parseHttpRequest_body, search]
  rfl

theorem body_iff {message : RequestMessage} {behind : Bytes}
    (announced : (parseHttpRequest message.text behind).contentLength = message.announcedLength) :
    ((parseHttpRequest message.text behind).contentLength.toNat ≤ message.body.length ∧
      (parseHttpRequest message.text behind).body.getD [] =
        message.body.take (parseHttpRequest message.text behind).contentLength.toNat) ↔
      message.announcedLength = 0 ∨ message.announcedLength.toNat = message.body.length := by
  rw [message_body, announced]
  by_cases empty : message.announcedLength = 0
  · rw [empty, if_neg (by decide)]
    exact iff_of_true ⟨Nat.zero_le _, List.take_zero.symm⟩ (Or.inl rfl)
  · have positive : message.announcedLength > 0 := by
      rw [gt_iff_lt, UInt64.lt_iff_toNat_lt]
      exact Nat.pos_of_ne_zero fun zero => empty (UInt64.toNat_inj.mp zero)
    rw [if_pos positive, Option.getD_some, or_iff_right empty, List.take_self_eq_iff]
    omega

/-- A request is parsed right just if it is well framed. -/
theorem parsedRight_iff (message : RequestMessage) (behind : Bytes) :
    ParsedRight message behind ↔ WellFramed message := by
  have free : NulFree message.text := fun nul =>
    (List.mem_append.mp nul).elim (message_head_nulFree message) message.bodyFree
  obtain ⟨start, inHead, inBody, tail, all, headLines, bodyLines⟩ := reads_eq message behind
  have reads : headerReads message.text behind = inHead ++ inBody := by
    rw [headerReads_eq free, all, List.tail_cons]
  have bodyPlain : (∀ read ∈ inBody, isHeaderLine (cString read.2) = false) ↔
      ∀ line ∈ linesOf message.body, isHeaderLine line.1 = false := by
    apply forall_iff_of_forall₂ _ bodyLines
    intro read line inBody
    obtain ⟨tail, memory⟩ := inBody.memory
    rw [memory, cString_append_nul inBody.lineFree]
  have announced : (parseHttpRequest message.text behind).withoutBody =
      message.expected.withoutBody →
        (parseHttpRequest message.text behind).contentLength = message.announcedLength := by
    intro fields
    have same : (parseHttpRequest message.text behind).withoutBody.contentLength =
        message.expected.withoutBody.contentLength := congrArg HttpRequest.contentLength fields
    exact same.trans (expected_contentLength message)
  constructor
  · intro right
    obtain ⟨otherHead, otherBody, split, stored, none⟩ := right.reads
    have lengths : inHead.length = otherHead.length :=
      headLines.length_eq.symm.trans stored.length_eq
    obtain ⟨rfl, rfl⟩ := List.append_inj (reads.symm.trans split) lengths
    exact ⟨(forall₂_stored_iff headLines).mp stored, bodyPlain.mp none,
      (body_iff (announced right.fields)).mp ⟨right.enough, right.body⟩⟩
  · intro framed
    have stored := (forall₂_stored_iff headLines).mpr framed.headers
    have fields : (parseHttpRequest message.text behind).withoutBody =
        message.expected.withoutBody := by
      have requestLine : applyRequestLine emptyHttpRequest (message.requestLine ++ 0 :: tail) =
          applyRequestLine emptyHttpRequest message.requestLine := by
        have lineFree : NulFree message.requestLine := message.linePlain.2 0 (by decide)
        rw [applyRequestLine, applyRequestLine, cString_append_nul lineFree,
          cString_eq_self lineFree]
      rw [parseHttpRequest_eq free, all]
      dsimp only
      rw [withoutBody_finishRequest, List.foldl_append, foldl_of_stored stored,
        foldl_inBody bodyLines framed.body, requestLine, RequestMessage.expected]
    obtain ⟨enough, body⟩ := (body_iff (announced fields)).mpr framed.length
    exact ⟨⟨inHead, inBody, reads, stored, bodyPlain.mpr framed.body⟩, fields, enough, body⟩

end Reading

/-- `Origin:` and the text behind it. -/
def originLine (text : Bytes) (plain : ∀ byte ∈ ([0, 10, 13] : Bytes), byte ∉ text) :
    HeaderLine where
  name := ascii "Origin"
  text := text
  namePlain := by decide +kernel
  textPlain := plain

/-- A request with one header line and no body. -/
def originRequest (text : Bytes) (plain : ∀ byte ∈ ([0, 10, 13] : Bytes), byte ∉ text) :
    RequestMessage where
  requestLine := ascii "GET / HTTP/1.1"
  headers := [originLine text plain]
  body := []
  linePlain := by decide +kernel
  bodyFree := by decide

theorem http_plain : ∀ byte ∈ ([0, 10, 13] : Bytes), byte ∉ ascii "http" := by
  decide +kernel

/-- Without a space behind the colon the first byte of the value is lost. -/
theorem not_parsedRight_originRequest :
    ¬ ParsedRight (originRequest (ascii "http") http_plain) [] := by
  intro right
  have stored := congrArg HttpRequest.origin right.fields
  revert stored
  decide +kernel

end Jdbx
