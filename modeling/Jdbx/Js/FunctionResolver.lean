import Jdbx.Database.QueryAgreement
import Jdbx.Library.StatefulMap
import Jdbx.Utils.JsonEquality

/-!
# The function resolver

`js_function_resolver.c`: a string is a function or names one by library and name, and the
strings of some fields of a document are replaced by what they resolve to.  A query that
compares a library that is no string ends the process, and `none` is that end.
-/

namespace Jdbx

open Library

variable {δ : Type}

section Model

def isFunctionReference : JsonValue δ → Bool
  | .string text => (ascii "@function:").isPrefixOf text
  | _ => false

def isInlineFunction : JsonValue δ → Bool
  | .string text => (ascii "function").isPrefixOf text || decide (ascii "=>" <:+: text)
  | _ => false

/-- `js_create_function_reference`, through a buffer of 512 bytes. -/
def jsCreateFunctionReference (library : Option Bytes) (functionName : Bytes) : Bytes :=
  (ascii "@function:" ++ library.getD (ascii "system") ++ ascii "/" ++ functionName).take 511

/-- The library and the name in the id of a function, into buffers of 256 bytes. -/
def splitFunctionId (functionId : Bytes) : Bytes × Bytes :=
  let library := functionId.takeWhile (· ≠ 47)
  if 47 ∈ functionId ∧ library.length < 256 then
    (library, (functionId.drop (library.length + 1)).take 255)
  else (ascii "system", functionId.take 255)

def functionQuery (functionName : Bytes) : JsonValue δ :=
  .object [(ascii "name", .string functionName)]

def functionsPath (library : Bytes) : Bytes :=
  (library ++ ascii "/functions").take 511

/-- What `js_resolve_function` returns for the document of a function. -/
def functionDetails (funcDoc : JsonValue δ) : Option (JsonValue δ) :=
  match jsonObjectGet funcDoc (ascii "code") with
  | some (.string code) =>
      let name := (jsonGetString (jsonObjectGet funcDoc (ascii "name"))).getD
        (ascii "referenced_function")
      let copyField (result : JsonValue δ) (key : Bytes) :=
        match jsonObjectGet funcDoc key with
        | some value => jsonObjectSet result key (jsonClone value)
        | none => result
      some (copyField (copyField (.object [(ascii "code", .string code),
        (ascii "name", .string name), (ascii "type", .string (ascii "reference"))])
          (ascii "parameters")) (ascii "description"))
  | _ => none

variable [CDouble δ]

def loadFunctionFromCollection (db : Database δ) (functionId : Bytes) :
    Option (Option (JsonValue δ) × Database δ) :=
  let place := splitFunctionId functionId
  (dbQueryDocuments db (ascii "default") (functionsPath place.1)
    (some (functionQuery place.2))).map fun queried =>
      ((foundDocuments queried.1).head?.map jsonClone, queried.2)

def jsResolveFunction (db : Database δ) (functionSpec : JsonValue δ) :
    Option (Option (JsonValue δ) × Database δ) :=
  match functionSpec with
  | .string text =>
      if isInlineFunction functionSpec then
        some (some (.object [(ascii "code", .string text),
          (ascii "name", .string (ascii "inline_function")),
          (ascii "type", .string (ascii "inline"))]), db)
      else if isFunctionReference functionSpec then
        (loadFunctionFromCollection db (text.drop 10)).map fun loaded =>
          (loaded.1.bind functionDetails, loaded.2)
      else some (none, db)
  | _ => some (none, db)

omit [CDouble δ] in
/-- The fields whose strings are resolved. -/
def isFunctionField (fieldName : Bytes) : Bool :=
  [ascii "validator", ascii "transformer", ascii "handler", ascii "onCreate", ascii "onUpdate",
    ascii "onDelete"].contains fieldName

mutual

def resolveFunctionsInValue (db : Database δ) (fieldName : Option Bytes) :
    JsonValue δ → Option (JsonValue δ × Database δ)
  | .string text =>
      if fieldName.any isFunctionField then
        (jsResolveFunction db (.string text)).map fun resolved =>
          (resolved.1.getD (jsonClone (.string text)), resolved.2)
      else some (jsonClone (.string text), db)
  | .object entries =>
      (resolveFunctionsInEntries db entries).map fun resolved =>
        (.object (objectOfMembers resolved.1), resolved.2)
  | .array items =>
      (resolveFunctionsInItems db items).map fun resolved => (.array resolved.1, resolved.2)
  | .null => some (jsonClone .null, db)
  | .boolean boolean => some (jsonClone (.boolean boolean), db)
  | .number number => some (jsonClone (.number number), db)
  | .integer integer => some (jsonClone (.integer integer), db)
termination_by structural value => value

def resolveFunctionsInItems (db : Database δ) :
    List (JsonValue δ) → Option (List (JsonValue δ) × Database δ)
  | [] => some ([], db)
  | item :: items =>
      (resolveFunctionsInValue db none item).bind fun first =>
        (resolveFunctionsInItems first.2 items).map fun rest => (first.1 :: rest.1, rest.2)
termination_by structural items => items

/-- The entries in the order in which they are set in the new object. -/
def resolveFunctionsInEntries (db : Database δ) :
    List (Bytes × JsonValue δ) → Option (List (Bytes × JsonValue δ) × Database δ)
  | [] => some ([], db)
  | (key, value) :: entries =>
      (resolveFunctionsInValue db (some key) value).bind fun first =>
        (resolveFunctionsInEntries first.2 entries).map fun rest =>
          ((key, first.1) :: rest.1, rest.2)
termination_by structural entries => entries

end

attribute [grind =] resolveFunctionsInValue resolveFunctionsInItems resolveFunctionsInEntries

def jsResolveDocumentFunctions (db : Database δ) (document : JsonValue δ) :
    Option (JsonValue δ × Database δ) :=
  match document with
  | .object _ => resolveFunctionsInValue db none document
  | other => some (jsonClone other, db)

end Model

/-! ## What is asked of it -/

/-- The part of a value at a path of indices, with the name of its field. -/
def partAt : List Nat → Option Bytes → JsonValue δ → Option (Option Bytes × JsonValue δ)
  | [], fieldName, value => some (fieldName, value)
  | index :: path, _, .array items => items[index]?.bind (partAt path none)
  | index :: path, _, .object entries =>
      entries[index]?.bind fun entry => partAt path (some entry.1) entry.2
  | _ :: _, _, _ => none

/-- No part of the value is a function-valued field. -/
def FunctionFree (fieldName : Option Bytes) (value : JsonValue δ) : Prop :=
  ∀ path name part, partAt path fieldName value = some (name, part) →
    name.any isFunctionField = true →
      isInlineFunction part = false ∧ isFunctionReference part = false

variable [CDouble δ] {fieldName : Option Bytes} {db : Database δ}

/-- No stored document has a library that is not a string. -/
abbrev TextLibraries (δ : Type) [CDouble δ] (documents : DocumentList) : Prop :=
  ∀ doc ∈ documents.entries.filterMap (storedDocument (δ := δ)), HasTextLibrary doc

/-- The library has a function of this name and code in its functions collection. -/
def StoresFunction (db : Database δ) (library functionName code : Bytes) : Prop :=
  ∃ funcDoc ∈ db.documents.entries.filterMap (storedDocument (δ := δ)),
    jsonGetString (jsonObjectGet funcDoc (ascii "library")) = some library ∧
      jsonGetString (jsonObjectGet funcDoc (ascii "collection")) = some (ascii "functions") ∧
        jsonGetString (jsonObjectGet funcDoc (ascii "name")) = some functionName ∧
          jsonGetString (jsonObjectGet funcDoc (ascii "code")) = some code

def ResolvesTo (db : Database δ) (library functionName code : Bytes) : Prop :=
  ∃ result next, jsResolveFunction db
      (.string (jsCreateFunctionReference (some library) functionName)) =
        some (some result, next) ∧
    jsonObjectGet result (ascii "code") = some (.string code)

/-- The resolver finds the functions of the library by the references that are made for them,
and leaves every part of a document that holds no function-valued field as it is. -/
structure ResolvesFunctions (db : Database δ) (library functionName : Bytes)
    (document : JsonValue δ) : Prop where
  resolves : ∀ code, StoresFunction db library functionName code →
    ResolvesTo db library functionName code
  leaves : ∃ resolved next, jsResolveDocumentFunctions db document = some (resolved, next) ∧
    ∀ path name part, partAt path none document = some (name, part) → FunctionFree name part →
      ∃ left, partAt path none resolved = some (name, left) ∧ jsonEquals part left = true

/-- The documents from which the resolver takes the first: the answer that is cached for the
query, or the stored documents of the library `default` with the name. -/
def answeringDocuments (db : Database δ) (library functionName : Bytes) : List (JsonValue δ) :=
  match (cacheGet db.queryCache (generateQueryCacheKeyFast (ascii "default")
      (functionsPath library) (some (functionQuery functionName : JsonValue δ)))).1 with
  | some cached => foundDocuments cached
  | none =>
      (db.documents.entries.filterMap storedDocument).filter
        (dbMatches (ascii "default") (some (functionQuery functionName)))

/-- A reference with an arrow in it is taken for its own code.  Another one is right if the
first document that answers, whatever its library, has the code.  And no number of the document
is a NaN. -/
structure ResolverMeets (db : Database δ) (library functionName : Bytes)
    (document : JsonValue δ) : Prop where
  found : ∀ code, StoresFunction db library functionName code →
    let reference := jsCreateFunctionReference (some library) functionName
    if ascii "=>" <:+: reference then code = reference
    else
      (answeringDocuments db library (functionName.take (500 - library.length))).head?.bind
        (fun funcDoc => jsonObjectGet (jsonClone funcDoc) (ascii "code")) = some (.string code)
  numbers : ∀ path name number, partAt path none document = some (name, .number number) →
    CDouble.eq number number = true

/-! ## References -/

theorem splitFunctionId_reference {library functionName : Bytes} (noSlash : 47 ∉ library)
    (short : library.length < 256) (shortName : functionName.length < 256) :
    splitFunctionId ((jsCreateFunctionReference (some library) functionName).drop 10) =
      (library, functionName.take (500 - library.length)) := by
  have functionId : (jsCreateFunctionReference (some library) functionName).drop 10 =
      library ++ 47 :: functionName.take (500 - library.length) := by
    have whole : ascii "@function:" ++ library ++ ascii "/" ++ functionName =
        ascii "@function:" ++ (library ++ 47 :: functionName) := by
      rw [List.append_assoc, List.append_assoc]
      rfl
    have room : 501 - library.length = (500 - library.length) + 1 := by omega
    rw [jsCreateFunctionReference, Option.getD_some, whole, List.drop_take]
    change (library ++ 47 :: functionName).take 501 = _
    rw [List.take_append, List.take_of_length_le (by omega), room, List.take_succ_cons]
  have start : (library ++ 47 :: functionName.take (500 - library.length)).takeWhile (· ≠ 47) =
      library := by
    have inside : ∀ byte ∈ library, decide (byte ≠ 47) = true := fun byte member =>
      decide_eq_true fun same : byte = 47 => noSlash (same ▸ member)
    rw [List.takeWhile_append_of_pos inside]
    simp
  have behind : (library ++ 47 :: functionName.take (500 - library.length)).drop
      (library.length + 1) = functionName.take (500 - library.length) := by
    rw [List.drop_append, List.drop_of_length_le (Nat.le_succ _)]
    simp
  rw [functionId, splitFunctionId, start, behind, if_pos ⟨by simp, short⟩,
    List.take_of_length_le (by rw [List.length_take]; omega)]

omit [CDouble δ] in
theorem isInlineFunction_reference (library functionName : Bytes) :
    isInlineFunction (.string (jsCreateFunctionReference (some library) functionName) :
        JsonValue δ) =
      decide (ascii "=>" <:+: jsCreateFunctionReference (some library) functionName) := by
  rfl

omit [CDouble δ] in
theorem functionDetails_code {funcDoc : JsonValue δ} {code : Bytes} :
    (∃ result, functionDetails funcDoc = some result ∧
        jsonObjectGet result (ascii "code") = some (.string code)) ↔
      jsonObjectGet funcDoc (ascii "code") = some (.string code) := by
  rw [functionDetails]
  split
  next held coded =>
    have differs : ascii "code" ≠ ascii "parameters" ∧ ascii "code" ≠ ascii "description" := by
      decide
    have own (name : JsonValue δ) : jsonObjectGet (.object [(ascii "code", .string held),
        (ascii "name", name), (ascii "type", .string (ascii "reference"))]) (ascii "code") =
          some (.string held) :=
      rfl
    simp only [Option.some.injEq, exists_eq_left', coded]
    cases jsonObjectGet funcDoc (ascii "parameters") <;>
      cases jsonObjectGet funcDoc (ascii "description") <;>
        simp only [jsonObjectGet_set_of_ne _ differs.1, jsonObjectGet_set_of_ne _ differs.2, own,
          Option.some.injEq]
  next uncoded => exact iff_of_false (by simp) (uncoded code)

theorem dbQueryDocuments_answering (strings : TextLibraries δ db.documents)
    (library functionName : Bytes) :
    ∃ answer next, dbQueryDocuments db (ascii "default") (functionsPath library)
        (some (functionQuery functionName)) = some (answer, next) ∧
      foundDocuments answer = answeringDocuments db library functionName ∧
        next.documents = db.documents := by
  rw [dbQueryDocuments, answeringDocuments]
  cases cached : (cacheGet db.queryCache (generateQueryCacheKeyFast (ascii "default")
      (functionsPath library) (some (functionQuery functionName : JsonValue δ)))).1 with
  | some answer => exact ⟨answer, _, rfl, rfl, rfl⟩
  | none =>
      rw [scanDocuments_eq, if_pos strings]
      exact ⟨_, _, rfl, rfl, rfl⟩

theorem resolvesTo_iff (strings : TextLibraries δ db.documents) {library functionName : Bytes}
    (noSlash : 47 ∉ library) (short : library.length < 256)
    (shortName : functionName.length < 256) (code : Bytes) :
    ResolvesTo db library functionName code ↔
      if ascii "=>" <:+: jsCreateFunctionReference (some library) functionName then
        code = jsCreateFunctionReference (some library) functionName
      else
        (answeringDocuments db library (functionName.take (500 - library.length))).head?.bind
          (fun funcDoc => jsonObjectGet (jsonClone funcDoc) (ascii "code")) =
            some (.string code) := by
  have refers : isFunctionReference (.string (jsCreateFunctionReference (some library)
      functionName) : JsonValue δ) = true :=
    rfl
  rw [ResolvesTo, jsResolveFunction, isInlineFunction_reference]
  by_cases arrow : ascii "=>" <:+: jsCreateFunctionReference (some library) functionName
  · have own (text : Bytes) : jsonObjectGet (.object [(ascii "code", .string text),
        (ascii "name", .string (ascii "inline_function")),
        (ascii "type", .string (ascii "inline"))] : JsonValue δ) (ascii "code") =
          some (.string text) :=
      rfl
    rw [if_pos (decide_eq_true arrow), if_pos arrow]
    simp [own, eq_comm]
  · obtain ⟨answer, next, queried, found, -⟩ := dbQueryDocuments_answering strings library
      (functionName.take (500 - library.length))
    rw [if_neg (by simpa using arrow), if_pos refers, if_neg arrow, loadFunctionFromCollection,
      splitFunctionId_reference noSlash short shortName, queried, ← found]
    simp only [Option.map_some, Option.some.injEq, Prod.mk.injEq, Option.bind_map]
    cases (foundDocuments answer).head? with
    | none => simp
    | some funcDoc =>
        rw [Option.bind_some, Option.bind_some, ← functionDetails_code]
        simp

/-! ## Documents -/

theorem resolveFunctionsInItems_eq (items : List (JsonValue δ)) (db : Database δ) :
    resolveFunctionsInItems db items =
      mapState (fun db item => resolveFunctionsInValue db none item) db items := by
  induction items generalizing db with
  | nil => rfl
  | cons item items ih =>
      rw [resolveFunctionsInItems, mapState]
      simp only [ih]

/-- One turn of the loop over the entries of an object. -/
def resolveEntry (db : Database δ) (entry : Bytes × JsonValue δ) :
    Option ((Bytes × JsonValue δ) × Database δ) :=
  (resolveFunctionsInValue db (some entry.1) entry.2).map fun resolved =>
    ((entry.1, resolved.1), resolved.2)

theorem resolveFunctionsInEntries_eq (entries : List (Bytes × JsonValue δ)) (db : Database δ) :
    resolveFunctionsInEntries db entries = mapState resolveEntry db entries := by
  induction entries generalizing db with
  | nil => rfl
  | cons entry entries ih =>
      rw [resolveFunctionsInEntries, mapState, resolveEntry, Option.bind_map]
      simp only [ih, Function.comp_def]

omit [CDouble δ] in
theorem FunctionFree.item {items : List (JsonValue δ)} {item : JsonValue δ}
    (free : FunctionFree fieldName (.array items)) (member : item ∈ items) :
    FunctionFree none item := by
  intro path name part found
  obtain ⟨index, there⟩ := List.mem_iff_getElem?.mp member
  apply free (index :: path) name part
  rw [partAt, there, Option.bind_some, found]

omit [CDouble δ] in
theorem FunctionFree.entry {entries : List (Bytes × JsonValue δ)} {entry : Bytes × JsonValue δ}
    (free : FunctionFree fieldName (.object entries)) (member : entry ∈ entries) :
    FunctionFree (some entry.1) entry.2 := by
  intro path name part found
  obtain ⟨index, there⟩ := List.mem_iff_getElem?.mp member
  apply free (index :: path) name part
  rw [partAt, there, Option.bind_some, found]

theorem resolveFunctionsInValue_of_free (value : JsonValue δ) (wellFormed : WellFormed value)
    (free : FunctionFree fieldName value) (db : Database δ) :
    resolveFunctionsInValue db fieldName value = some (value, db) := by
  induction value using JsonValue.members_induction generalizing fieldName db with
  | scalar value noArray noObject =>
      cases value with
      | string text =>
          rw [resolveFunctionsInValue]
          split_ifs with named
          · obtain ⟨notInline, noReference⟩ := free [] fieldName (.string text) rfl named
            rw [jsResolveFunction, notInline, noReference]
            rfl
          · rfl
      | array items => exact (noArray items rfl).elim
      | object entries => exact (noObject entries rfl).elim
      | _ => rfl
  | array items ih =>
      rw [resolveFunctionsInValue, resolveFunctionsInItems_eq, mapState_eq_self items]
      · rfl
      · exact fun item member db =>
          ih item member (wellFormedItems_iff.mp wellFormed item member) (free.item member) db
  | object entries ih =>
      rw [resolveFunctionsInValue, resolveFunctionsInEntries_eq, mapState_eq_self entries]
      · rw [Option.map_some, objectOfMembers_eq_self wellFormed.1]
      · intro entry member db
        have inner := (wellFormedEntries_iff.mp wellFormed.2 entry member).2
        rw [resolveEntry, ih entry member inner (free.entry member) db]
        rfl

theorem resolveFunctionsInValue_returns {documents : DocumentList}
    (strings : TextLibraries δ documents) (value : JsonValue δ) (fieldName : Option Bytes)
    (same : db.documents = documents) :
    ∃ resolved next, resolveFunctionsInValue db fieldName value = some (resolved, next) ∧
      next.documents = documents := by
  induction value using JsonValue.members_induction generalizing fieldName db with
  | scalar value noArray noObject =>
      cases value with
      | string text =>
          rw [resolveFunctionsInValue]
          split_ifs
          · rw [jsResolveFunction]
            split_ifs
            · exact ⟨_, db, rfl, same⟩
            · subst same
              obtain ⟨answer, next, queried, -, kept⟩ := dbQueryDocuments_answering strings
                (splitFunctionId (text.drop 10)).1 (splitFunctionId (text.drop 10)).2
              rw [loadFunctionFromCollection, queried]
              exact ⟨_, next, rfl, kept⟩
            · exact ⟨_, db, rfl, same⟩
          · exact ⟨_, db, rfl, same⟩
      | array items => exact (noArray items rfl).elim
      | object entries => exact (noObject entries rfl).elim
      | _ => exact ⟨_, db, rfl, same⟩
  | array items ih =>
      obtain ⟨results, next, mapped, kept⟩ := mapState_returns
        (fun item member db same => ih item member none same) same
      rw [resolveFunctionsInValue, resolveFunctionsInItems_eq, mapped]
      exact ⟨_, next, rfl, kept⟩
  | object entries ih =>
      have entryReturns : ∀ entry ∈ entries, ∀ db : Database δ, db.documents = documents →
          ∃ resolved next, resolveEntry db entry = some (resolved, next) ∧
            next.documents = documents := by
        intro entry member db same
        obtain ⟨resolved, next, returns, kept⟩ := ih entry member (some entry.1) same
        rw [resolveEntry, returns]
        exact ⟨_, next, rfl, kept⟩
      obtain ⟨results, next, mapped, kept⟩ := mapState_returns entryReturns same
      rw [resolveFunctionsInValue, resolveFunctionsInEntries_eq, mapped]
      exact ⟨_, next, rfl, kept⟩

/-- A part of the value is resolved on its own, at the place where it stood. -/
theorem resolveFunctionsInValue_partAt (path : List Nat) {value resolved part : JsonValue δ}
    {fieldName name : Option Bytes} {db next : Database δ} (wellFormed : WellFormed value)
    (resolves : resolveFunctionsInValue db fieldName value = some (resolved, next))
    (found : partAt path fieldName value = some (name, part)) :
    WellFormed part ∧ ∃ before after left, partAt path fieldName resolved = some (name, left) ∧
      resolveFunctionsInValue before name part = some (left, after) := by
  induction path generalizing value resolved fieldName db next with
  | nil =>
      cases found
      exact ⟨wellFormed, db, next, resolved, rfl, resolves⟩
  | cons index path ih =>
      cases value with
      | array items =>
          obtain ⟨item, there, inside⟩ := Option.bind_eq_some_iff.mp found
          rw [resolveFunctionsInValue, resolveFunctionsInItems_eq] at resolves
          obtain ⟨mapped, maps, same⟩ := Option.map_eq_some_iff.mp resolves
          cases same
          obtain ⟨before, after, result, stands, stepped⟩ := mapState_getElem? maps there
          have inner := wellFormedItems_iff.mp wellFormed item (List.mem_of_getElem? there)
          rw [partAt, stands]
          exact ih inner stepped inside
      | object entries =>
          obtain ⟨entry, there, inside⟩ := Option.bind_eq_some_iff.mp found
          rw [resolveFunctionsInValue, resolveFunctionsInEntries_eq] at resolves
          obtain ⟨mapped, maps, same⟩ := Option.map_eq_some_iff.mp resolves
          cases same
          have keys : entryKeys mapped.1 = entryKeys entries := by
            refine mapState_map (fun db entry result next resolved => ?_) maps
            obtain ⟨_, -, same⟩ := Option.map_eq_some_iff.mp resolved
            cases same
            rfl
          obtain ⟨before, after, result, stands, stepped⟩ := mapState_getElem? maps there
          obtain ⟨value, valueResolves, same⟩ := Option.map_eq_some_iff.mp stepped
          cases same
          have inner := (wellFormedEntries_iff.mp wellFormed.2 entry (List.mem_of_getElem? there)).2
          rw [partAt, objectOfMembers_eq_self (keys ▸ wellFormed.1), stands]
          exact ih inner valueResolves inside
      | _ => cases found

omit [CDouble δ] in
theorem partAt_append (path later : List Nat) (fieldName : Option Bytes) (value : JsonValue δ) :
    partAt (path ++ later) fieldName value =
      (partAt path fieldName value).bind fun found => partAt later found.1 found.2 := by
  induction path generalizing fieldName value with
  | nil => rfl
  | cons index path ih =>
      cases value with
      | array items =>
          rw [List.cons_append, partAt, partAt, Option.bind_assoc]
          exact congrArg _ (funext fun item => ih none item)
      | object entries =>
          rw [List.cons_append, partAt, partAt, Option.bind_assoc]
          exact congrArg _ (funext fun entry => ih (some entry.1) entry.2)
      | _ => rfl

omit [CDouble δ] in
theorem WellFormed.partAt {path : List Nat} {value part : JsonValue δ}
    {fieldName name : Option Bytes} (wellFormed : WellFormed value)
    (found : partAt path fieldName value = some (name, part)) : WellFormed part := by
  induction path generalizing value fieldName with
  | nil =>
      cases found
      exact wellFormed
  | cons index path ih =>
      cases value with
      | array items =>
          obtain ⟨item, there, inside⟩ := Option.bind_eq_some_iff.mp found
          exact ih (wellFormedItems_iff.mp wellFormed item (List.mem_of_getElem? there)) inside
      | object entries =>
          obtain ⟨entry, there, inside⟩ := Option.bind_eq_some_iff.mp found
          exact ih (wellFormedEntries_iff.mp wellFormed.2 entry (List.mem_of_getElem? there)).2
            inside
      | _ => cases found

theorem jsonEquals_self_of_numbers (value : JsonValue δ) (fieldName : Option Bytes)
    (wellFormed : WellFormed value)
    (numbers : ∀ path name number, partAt path fieldName value = some (name, .number number) →
      CDouble.eq number number = true) : jsonEquals value value = true := by
  induction value using JsonValue.members_induction generalizing fieldName with
  | scalar value noArray noObject =>
      cases value with
      | number number => exact numbers [] fieldName number rfl
      | array items => exact (noArray items rfl).elim
      | object entries => exact (noObject entries rfl).elim
      | _ => simp [jsonEquals]
  | array items ih =>
      have same : List.Forall₂ (fun item other => jsonEquals item other = true) items items := by
        refine List.forall₂_same.mpr fun item member => ?_
        have inner := wellFormedItems_iff.mp wellFormed item member
        refine ih item member none inner fun path name number found => ?_
        obtain ⟨index, there⟩ := List.mem_iff_getElem?.mp member
        apply numbers (index :: path) name number
        rw [partAt, there, Option.bind_some, found]
      rw [jsonEquals, (jsonEqualsItems_iff.mpr same).2]
      simp
  | object entries ih =>
      have same : jsonEqualsEntries entries entries = true := by
        refine jsonEqualsEntries_iff.mpr fun entry member =>
          ⟨entry.2, getEntry_eq_some_of_mem wellFormed.1 member, ?_⟩
        refine ih entry member (some entry.1)
          (wellFormedEntries_iff.mp wellFormed.2 entry member).2 fun path name number found => ?_
        obtain ⟨index, there⟩ := List.mem_iff_getElem?.mp member
        apply numbers (index :: path) name number
        rw [partAt, there, Option.bind_some, found]
      rw [jsonEquals, same]
      simp

/-- A part without function-valued fields stays where it is. -/
theorem jsResolveDocumentFunctions_part {db next : Database δ} {document resolved : JsonValue δ}
    (wellFormed : WellFormed document)
    (resolves : jsResolveDocumentFunctions db document = some (resolved, next)) {path : List Nat}
    {name : Option Bytes} {part : JsonValue δ}
    (found : partAt path none document = some (name, part)) (free : FunctionFree name part) :
    partAt path none resolved = some (name, part) := by
  unfold jsResolveDocumentFunctions at resolves
  split at resolves
  · obtain ⟨inner, before, after, left, stands, partResolves⟩ :=
      resolveFunctionsInValue_partAt path wellFormed resolves found
    rw [resolveFunctionsInValue_of_free part inner free before] at partResolves
    cases partResolves
    exact stands
  · rw [jsonClone_eq_self wellFormed] at resolves
    cases resolves
    exact found

theorem jsResolveDocumentFunctions_returns (strings : TextLibraries δ db.documents)
    (document : JsonValue δ) :
    ∃ resolved next, jsResolveDocumentFunctions db document = some (resolved, next) := by
  cases document with
  | object entries =>
      obtain ⟨resolved, next, returns, -⟩ :=
        resolveFunctionsInValue_returns strings (.object entries) none (rfl : db.documents = _)
      exact ⟨resolved, next, returns⟩
  | _ => exact ⟨_, db, rfl⟩

/-- A function of a library, stored in its functions collection. -/
def checkFunction (library : String) : DocumentList :=
  skiplistInsert .empty (ascii "f") (ascii "\x7b\"library\":\"" ++ ascii library ++
    ascii "\",\"collection\":\"functions\",\"name\":\"check\",\"code\":\"f(x)\"\x7d")

end Jdbx
