import Jdbx.Library.HexText

/-!
# Password hashes

A hash is stored as the text `$pbkdf2$iterations$salt$hash`.  The verification reads the text
back with `sscanf`, and takes any text of another form for a hash of the old kind.
-/

namespace Jdbx

open Library

abbrev Salt := Vector UInt8 16

/-- `PKCS5_PBKDF2_HMAC` with SHA-256, of a password, a salt and a number of iterations. -/
abbrev Pbkdf2 := Bytes → Salt → Int32 → Vector UInt8 32

def pbkdf2Iterations : Int32 := 10000

/-- `hash_password`, with the salt that is drawn. -/
def hashPassword (pbkdf2 : Pbkdf2) (salt : Salt) (password : Bytes) : Bytes :=
  ascii "$pbkdf2$" ++ (formatInt64 pbkdf2Iterations.toInt64 ++ (ascii "$" ++
    (toHex salt.toList ++ (ascii "$" ++
      toHex (pbkdf2 password salt pbkdf2Iterations).toList))))

/-- `%d` of `sscanf`. -/
def scanInt (text : Bytes) : Option (Int32 × Bytes) :=
  let digits :=
    match text.dropWhile isspace with
    | 43 :: rest => rest
    | 45 :: rest => rest
    | rest => rest
  if (digits.takeWhile isdigit).isEmpty then none
  else some (atoi text, digits.dropWhile isdigit)

/-- `%s` of `sscanf`, with its width. -/
def scanText (width : Nat) (text : Bytes) : Option (Bytes × Bytes) :=
  let text := text.dropWhile isspace
  let word := (text.takeWhile fun byte => !isspace byte).take width
  if word.isEmpty then none else some (word, text.drop word.length)

/-- A byte of the format of `sscanf`. -/
def scanByte (byte : UInt8) : Bytes → Option Bytes
  | [] => none
  | first :: rest => if first = byte then some rest else none

/-- `sscanf` with `%d$%32s$%64s`, where it finds all three. -/
def scanHash (text : Bytes) : Option (Int32 × Bytes × Bytes) := do
  let (iterations, text) ← scanInt text
  let text ← scanByte 36 text
  let (saltHex, text) ← scanText 32 text
  let text ← scanByte 36 text
  let (hashHex, _) ← scanText 64 text
  pure (iterations, saltHex, hashHex)

def toSalt (bytes : Bytes) : Option Salt :=
  if long : bytes.length = 16 then some ⟨bytes.toArray, long⟩ else none

def legacyHash (password : Bytes) : Bytes :=
  let hash : UInt32 := password.foldl
    (fun hash byte => ((hash <<< 5) + hash) + byte.toInt8.toInt32.toUInt32) 5381
  toHex ((List.range 32).map fun place => (hash >>> (place % 4 * 8).toUInt32).toUInt8)

/-- `verify_password`.  There is no answer where the text has no salt of 32 digits: the salt is
then in part what the stack held before. -/
def verifyPassword (pbkdf2 : Pbkdf2) (password passwordHash : Bytes) : Option Bool :=
  if passwordHash.take 8 = ascii "$pbkdf2$" then
    match scanHash (passwordHash.drop 8) with
    | none => some false
    | some (iterations, saltHex, storedHashHex) =>
        ((ofHex saltHex).bind toSalt).map fun salt =>
          toHex (pbkdf2 password salt iterations).toList == storedHashHex
  else some (legacyHash password == passwordHash)

theorem isspace_of_isxdigit {byte : UInt8} (digit : isxdigit byte = true) :
    isspace byte = false := by
  simp only [isxdigit, isdigit, Bool.or_eq_true, Bool.and_eq_true, decide_eq_true_eq] at digit
  simp only [isspace, Bool.or_eq_false_iff, decide_eq_false_iff_not, Bool.and_eq_false_iff]
  grind

theorem scanText_append {word : Bytes} (someBytes : word ≠ [])
    (visible : ∀ byte ∈ word, isspace byte = false) (rest : Bytes) :
    scanText word.length (word ++ rest) = some (word, rest) := by
  have starts : (word ++ rest).dropWhile isspace = word ++ rest := by
    cases word with
    | nil => exact absurd rfl someBytes
    | cons byte word =>
        rw [List.cons_append, List.dropWhile_cons_of_neg]
        rw [visible byte List.mem_cons_self]
        exact Bool.false_ne_true
  have taken : ((word ++ rest).takeWhile fun byte => !isspace byte).take word.length = word := by
    rw [List.takeWhile_append_of_pos fun byte member => by rw [visible byte member]; rfl]
    exact List.take_left
  rw [scanText, starts]
  simp only [taken]
  rw [if_neg (by rwa [List.isEmpty_iff]), List.drop_left]

theorem scanText_toHex {bytes : Bytes} {width : Nat} (long : bytes.length * 2 = width)
    (positive : 0 < width) (rest : Bytes) :
    scanText width (toHex bytes ++ rest) = some (toHex bytes, rest) := by
  have length : (toHex bytes).length = width := (length_toHex bytes).trans long
  rw [← length]
  refine scanText_append ?_ (fun byte member => ?_) rest
  · intro empty
    rw [empty] at length
    exact absurd length (Nat.ne_of_lt positive)
  · exact isspace_of_isxdigit (toHex_isxdigit bytes byte member)

theorem scanHash_hashPassword (salt : Salt) (digest : Vector UInt8 32) :
    scanHash (formatInt64 pbkdf2Iterations.toInt64 ++ (ascii "$" ++
        (toHex salt.toList ++ (ascii "$" ++ toHex digest.toList)))) =
      some (pbkdf2Iterations, toHex salt.toList, toHex digest.toList) := by
  have iterations : ∀ rest : Bytes,
      scanInt (formatInt64 pbkdf2Iterations.toInt64 ++ 36 :: rest) =
        some (pbkdf2Iterations, 36 :: rest) := by
    intro rest
    have digits : formatInt64 pbkdf2Iterations.toInt64 = ascii "10000" := by decide +kernel
    rw [digits]
    rfl
  have saltRead : ∀ rest : Bytes,
      scanText 32 (toHex salt.toList ++ rest) = some (toHex salt.toList, rest) :=
    scanText_toHex (by simp) (by decide)
  have hashRead : scanText 64 (toHex digest.toList ++ []) = some (toHex digest.toList, []) :=
    scanText_toHex (by simp) (by decide) []
  rw [List.append_nil] at hashRead
  have dollar : ascii "$" = [36] := rfl
  simp only [scanHash, dollar, List.singleton_append, iterations, saltRead, hashRead, scanByte,
    Option.bind_eq_bind, Option.bind_some, if_true]
  rfl

theorem toSalt_toList (salt : Salt) : toSalt salt.toList = some salt := by
  rw [toSalt, dif_pos salt.length_toList]
  rfl

theorem verifyPassword_hashPassword (pbkdf2 : Pbkdf2) (salt : Salt) (attempt password : Bytes) :
    verifyPassword pbkdf2 attempt (hashPassword pbkdf2 salt password) = some true ↔
      pbkdf2 attempt salt pbkdf2Iterations = pbkdf2 password salt pbkdf2Iterations := by
  have start : (hashPassword pbkdf2 salt password).take 8 = ascii "$pbkdf2$" := rfl
  have rest : (hashPassword pbkdf2 salt password).drop 8 =
      formatInt64 pbkdf2Iterations.toInt64 ++ (ascii "$" ++ (toHex salt.toList ++ (ascii "$" ++
        toHex (pbkdf2 password salt pbkdf2Iterations).toList))) := rfl
  rw [verifyPassword, if_pos start, rest, scanHash_hashPassword]
  simp only [ofHex_toHex, Option.bind_some, toSalt_toList, Option.map_some, Option.some.injEq,
    beq_iff_eq]
  constructor
  · intro same
    exact Vector.toList_inj.mp (toHex_injective same)
  · intro same
    rw [same]

end Jdbx
