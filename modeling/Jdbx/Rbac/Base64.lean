import Jdbx.Library.CString

/-!
# Base64 and its URL-safe form

The encoder and decoder of `jwt.c`.  The decoder allocates `decoded_len` bytes
and may fill fewer of them, when padding characters stand inside the text; the
bytes it never writes keep what the block held before, given by `stale`.
-/

namespace Jdbx

open Library

def base64Chars : Bytes :=
  ascii "ABCDEFGHIJKLMNOPQRSTUVWXYZabcdefghijklmnopqrstuvwxyz0123456789+/"

/-- `base64_chars[sextet & 0x3F]`. -/
def base64Char (sextet : Nat) : UInt8 :=
  base64Chars.getD (sextet % 64) 0

def encodeTriple (octetA octetB octetC : UInt8) : Bytes :=
  let triple := octetA.toNat * 2 ^ 16 + octetB.toNat * 2 ^ 8 + octetC.toNat
  [base64Char (triple / 2 ^ 18), base64Char (triple / 2 ^ 12), base64Char (triple / 2 ^ 6),
    base64Char triple]

/-- `base64_encode`.  Missing octets are zero, and padding overwrites the last
characters. -/
def base64Encode : Bytes → Bytes
  | [] => []
  | [octetA] => (encodeTriple octetA 0 0).take 2 ++ [61, 61]
  | [octetA, octetB] => (encodeTriple octetA octetB 0).take 3 ++ [61]
  | octetA :: octetB :: octetC :: rest => encodeTriple octetA octetB octetC ++ base64Encode rest

def decodeTable (char : UInt8) : Nat :=
  if char ∈ base64Chars then base64Chars.idxOf char else 255

/-- One sextet of the decoding loop.  `0 & i++` makes a padding character skip
the character behind it as well. -/
def nextSextet : Bytes → Nat × Bytes
  | [] => (0, [])
  | char :: rest => if char = 61 then (0, rest.drop 1) else (decodeTable char, rest)

/-- The decoding loop, three octets a turn.  A turn consumes at least one
character, so the length of the text is enough fuel. -/
def decodeLoop : Nat → Bytes → Bytes
  | 0, _ => []
  | _ + 1, [] => []
  | fuel + 1, input =>
      let (sextetA, input) := nextSextet input
      let (sextetB, input) := nextSextet input
      let (sextetC, input) := nextSextet input
      let (sextetD, input) := nextSextet input
      let triple := sextetA * 2 ^ 18 + sextetB * 2 ^ 12 + sextetC * 2 ^ 6 + sextetD
      (triple / 2 ^ 16).toUInt8 :: (triple / 2 ^ 8).toUInt8 :: triple.toUInt8 ::
        decodeLoop fuel input

/-- The characters `base64_decode` accepts. -/
def validBase64Char (char : UInt8) : Bool :=
  (65 ≤ char && char ≤ 90) || (97 ≤ char && char ≤ 122) || isdigit char ||
    char = 43 || char = 47 || char = 61

def paddingAt (fromEnd : Nat) (input : Bytes) : Nat :=
  if fromEnd ≤ input.length ∧ input[input.length - fromEnd]? = some 61 then 1 else 0

/-- `decoded_len`. -/
def decodedLength (input : Bytes) : Nat :=
  input.length / 4 * 3 - paddingAt 1 input - paddingAt 2 input

def base64Decode (stale : Nat → UInt8) (input : Bytes) : Option Bytes :=
  if input.length % 4 ≠ 0 then none
  else if ¬ input.all validBase64Char then none
  else
    let written := decodeLoop input.length input
    some ((List.range (decodedLength input)).map fun j => written.getD j (stale j))

/-- The substitution of `base64_url_encode`; a padding character becomes the
end of the string. -/
def toUrlChar (char : UInt8) : UInt8 :=
  if char = 43 then 45 else if char = 47 then 95 else if char = 61 then 0 else char

/-- The substitution of `base64_url_decode`. -/
def fromUrlChar (char : UInt8) : UInt8 :=
  if char = 45 then 43 else if char = 95 then 47 else char

def base64UrlEncode (input : Bytes) : Bytes :=
  cString ((base64Encode input).map toUrlChar)

/-- The input of `base64_url_decode` in the plain alphabet, padded. -/
def padBase64 (input : Bytes) : Bytes :=
  input.map fromUrlChar ++ List.replicate ((4 - input.length % 4) % 4) 61

def base64UrlDecode (stale : Nat → UInt8) (input : Bytes) : Option Bytes :=
  base64Decode stale (padBase64 input)

theorem base64Char_mem (sextet : Nat) : base64Char sextet ∈ base64Chars := by
  have member : ∀ n < 64, base64Chars.getD n 0 ∈ base64Chars := by
    decide +kernel
  exact member (sextet % 64) (Nat.mod_lt _ (by decide))

theorem decodeTable_base64Char (sextet : Nat) :
    decodeTable (base64Char sextet) = sextet % 64 := by
  have table : ∀ n < 64, base64Chars.idxOf (base64Chars.getD n 0) = n := by
    decide +kernel
  rw [decodeTable, if_pos (base64Char_mem sextet)]
  exact table (sextet % 64) (Nat.mod_lt _ (by decide))

theorem base64Char_spec (sextet : Nat) :
    base64Char sextet ≠ 61 ∧ validBase64Char (base64Char sextet) = true ∧
      toUrlChar (base64Char sextet) ≠ 0 ∧ toUrlChar (base64Char sextet) ≠ 46 ∧
        fromUrlChar (toUrlChar (base64Char sextet)) = base64Char sextet := by
  have alphabet : ∀ char ∈ base64Chars,
      char ≠ 61 ∧ validBase64Char char = true ∧ toUrlChar char ≠ 0 ∧ toUrlChar char ≠ 46 ∧
        fromUrlChar (toUrlChar char) = char := by
    decide +kernel
  exact alphabet _ (base64Char_mem sextet)

theorem nextSextet_base64Char (sextet : Nat) (rest : Bytes) :
    nextSextet (base64Char sextet :: rest) = (sextet % 64, rest) := by
  rw [nextSextet, if_neg (base64Char_spec sextet).1, decodeTable_base64Char]

theorem nextSextet_padding (rest : Bytes) : nextSextet (61 :: rest) = (0, rest.drop 1) :=
  rfl

theorem nextSextet_nil : nextSextet [] = (0, []) :=
  rfl

private theorem octets_of_sextets (octetA octetB octetC : UInt8) (triple : Nat)
    (packed : triple = octetA.toNat * 2 ^ 16 + octetB.toNat * 2 ^ 8 + octetC.toNat) :
    triple / 2 ^ 18 % 64 * 2 ^ 18 + triple / 2 ^ 12 % 64 * 2 ^ 12 +
        triple / 2 ^ 6 % 64 * 2 ^ 6 + triple % 64 = triple ∧
      (triple / 2 ^ 16).toUInt8 = octetA ∧ (triple / 2 ^ 8).toUInt8 = octetB ∧
        triple.toUInt8 = octetC := by
  have boundA := octetA.toNat_lt
  have boundB := octetB.toNat_lt
  have boundC := octetC.toNat_lt
  simp only [Nat.reducePow] at packed boundA boundB boundC ⊢
  refine ⟨by omega, UInt8.toNat_inj.mp ?_, UInt8.toNat_inj.mp ?_, UInt8.toNat_inj.mp ?_⟩
  all_goals
    simp only [Nat.toUInt8, UInt8.toNat_ofNat', Nat.reducePow]
    omega

/-! ## Decoding what was encoded -/

theorem decodeLoop_encodeTriple (fuel : Nat) (octetA octetB octetC : UInt8) (rest : Bytes) :
    decodeLoop (fuel + 1) (encodeTriple octetA octetB octetC ++ rest) =
      octetA :: octetB :: octetC :: decodeLoop fuel rest := by
  obtain ⟨sum, first, second, third⟩ := octets_of_sextets octetA octetB octetC _ rfl
  simp only [encodeTriple, List.cons_append, List.nil_append, decodeLoop,
    nextSextet_base64Char, sum, first, second, third]

theorem encodeTriple_length (octetA octetB octetC : UInt8) :
    (encodeTriple octetA octetB octetC).length = 4 :=
  rfl

theorem base64Encode_length (input : Bytes) :
    (base64Encode input).length = (input.length + 2) / 3 * 4 := by
  fun_induction base64Encode input with
  | case1 => rfl
  | case2 octetA => simp [encodeTriple]
  | case3 octetA octetB => simp [encodeTriple]
  | case4 octetA octetB octetC rest ih =>
      rw [List.length_append, encodeTriple_length, ih]
      simp only [List.length_cons]
      omega

private theorem encodeTriple_valid (octetA octetB octetC : UInt8) :
    ∀ char ∈ encodeTriple octetA octetB octetC, ∃ sextet, char = base64Char sextet := by
  intro char member
  simp only [encodeTriple, List.mem_cons, List.not_mem_nil, or_false] at member
  rcases member with rfl | rfl | rfl | rfl <;> exact ⟨_, rfl⟩

theorem base64Encode_valid (input : Bytes) :
    (base64Encode input).all validBase64Char = true := by
  have triple : ∀ octetA octetB octetC : UInt8,
      ∀ char ∈ encodeTriple octetA octetB octetC, validBase64Char char = true := by
    intro octetA octetB octetC char member
    obtain ⟨sextet, rfl⟩ := encodeTriple_valid octetA octetB octetC char member
    exact (base64Char_spec sextet).2.1
  rw [List.all_eq_true]
  fun_induction base64Encode input with
  | case1 => simp
  | case2 octetA =>
      intro char member
      rcases List.mem_append.mp member with taken | padding
      · exact triple _ _ _ char (List.mem_of_mem_take taken)
      · revert padding
        simp +contextual [validBase64Char]
  | case3 octetA octetB =>
      intro char member
      rcases List.mem_append.mp member with taken | padding
      · exact triple _ _ _ char (List.mem_of_mem_take taken)
      · revert padding
        simp +contextual [validBase64Char]
  | case4 octetA octetB octetC rest ih =>
      intro char member
      rcases List.mem_append.mp member with group | others
      · exact triple _ _ _ char group
      · exact ih char others

private theorem paddingAt_append (group : Bytes) {rest : Bytes} {fromEnd : Nat}
    (inside : fromEnd ≤ rest.length) :
    paddingAt fromEnd (group ++ rest) = paddingAt fromEnd rest := by
  have inWhole : fromEnd ≤ (group ++ rest).length := by
    rw [List.length_append]
    omega
  have place : (group ++ rest).length - fromEnd - group.length = rest.length - fromEnd := by
    rw [List.length_append]
    omega
  have sameChar :
      (group ++ rest)[(group ++ rest).length - fromEnd]? = rest[rest.length - fromEnd]? := by
    rw [List.getElem?_append_right (by rw [List.length_append]; omega), place]
  simp only [paddingAt, inWhole, inside, true_and, sameChar]

private theorem decodedLength_append {group rest : Bytes} (four : group.length = 4)
    (long : 4 ≤ rest.length) :
    decodedLength (group ++ rest) = decodedLength rest + 3 := by
  have small : ∀ fromEnd input, paddingAt fromEnd input ≤ 1 := by
    intro fromEnd input
    unfold paddingAt
    split <;> decide
  have smallOne := small 1 rest
  have smallTwo := small 2 rest
  rw [decodedLength, decodedLength, paddingAt_append group (by omega),
    paddingAt_append group (by omega), List.length_append, four]
  omega

theorem decodedLength_base64Encode (input : Bytes) :
    decodedLength (base64Encode input) = input.length := by
  have lastChar : ∀ sextet, base64Char sextet ≠ 61 := fun sextet => (base64Char_spec sextet).1
  fun_induction base64Encode input with
  | case1 => rfl
  | case2 octetA => simp [decodedLength, paddingAt, encodeTriple]
  | case3 octetA octetB => simp [decodedLength, paddingAt, encodeTriple, lastChar]
  | case4 octetA octetB octetC rest ih =>
      cases rest with
      | nil => simp [decodedLength, paddingAt, encodeTriple, base64Encode, lastChar]
      | cons octet others =>
          have long : 4 ≤ (base64Encode (octet :: others)).length := by
            rw [base64Encode_length, List.length_cons]
            omega
          rw [decodedLength_append rfl long, ih]
          rfl

theorem decodeLoop_base64Encode (input : Bytes) :
    ∀ fuel, input.length ≤ fuel → ∃ more, decodeLoop fuel (base64Encode input) = input ++ more := by
  fun_induction base64Encode input with
  | case1 => exact fun fuel _ => ⟨_, rfl⟩
  | case2 octetA =>
      intro fuel enough
      obtain ⟨fuel, rfl⟩ := Nat.exists_eq_succ_of_ne_zero (Nat.ne_zero_of_lt enough)
      obtain ⟨sum, first, second, third⟩ := octets_of_sextets octetA 0 0 _ rfl
      have noThird : octetA.toNat * 2 ^ 16 / 2 ^ 6 % 64 = 0 := by
        omega
      have noFourth : octetA.toNat * 2 ^ 16 % 64 = 0 := by
        omega
      refine ⟨0 :: 0 :: decodeLoop fuel [], ?_⟩
      simp only [UInt8.toNat_zero, noThird, noFourth, Nat.zero_mul,
        Nat.add_zero] at sum first second third
      simp only [encodeTriple, UInt8.toNat_zero, Nat.zero_mul, Nat.add_zero, List.take_succ_cons,
        List.take_zero, List.cons_append, List.nil_append, decodeLoop, nextSextet_base64Char,
        nextSextet_padding, nextSextet_nil, List.drop_succ_cons, List.drop_zero, Nat.zero_mul,
        Nat.add_zero, sum, first, second, third]
  | case3 octetA octetB =>
      intro fuel enough
      obtain ⟨fuel, rfl⟩ := Nat.exists_eq_succ_of_ne_zero (Nat.ne_zero_of_lt enough)
      obtain ⟨sum, first, second, third⟩ := octets_of_sextets octetA octetB 0 _ rfl
      have noFourth : (octetA.toNat * 2 ^ 16 + octetB.toNat * 2 ^ 8) % 64 = 0 := by
        omega
      refine ⟨0 :: decodeLoop fuel [], ?_⟩
      simp only [UInt8.toNat_zero, noFourth, Nat.add_zero] at sum first second third
      simp only [encodeTriple, UInt8.toNat_zero, Nat.add_zero, List.take_succ_cons,
        List.take_zero, List.cons_append, List.nil_append, decodeLoop, nextSextet_base64Char,
        nextSextet_padding, List.drop_nil, Nat.add_zero, sum, first, second, third]
  | case4 octetA octetB octetC rest ih =>
      intro fuel enough
      rw [List.length_cons] at enough
      obtain ⟨fuel, rfl⟩ := Nat.exists_eq_succ_of_ne_zero (Nat.ne_zero_of_lt enough)
      simp only [List.length_cons] at enough
      obtain ⟨more, tail⟩ := ih fuel (by omega)
      exact ⟨more, by rw [decodeLoop_encodeTriple, tail]; rfl⟩

theorem base64Decode_base64Encode (stale : Nat → UInt8) (input : Bytes) :
    base64Decode stale (base64Encode input) = some input := by
  have whole : (base64Encode input).length % 4 = 0 := by
    rw [base64Encode_length]
    exact Nat.mul_mod_left _ 4
  obtain ⟨more, written⟩ :=
    decodeLoop_base64Encode input (base64Encode input).length (by
      rw [base64Encode_length]
      omega)
  rw [base64Decode, if_neg (not_not_intro whole),
    if_neg (not_not_intro (base64Encode_valid input)), decodedLength_base64Encode, written]
  refine congrArg some (List.ext_getElem (by simp) ?_)
  intro j inRange _
  have inInput : j < input.length := by
    simpa using inRange
  simp [List.getD, List.getElem?_append_left inInput, List.getElem?_eq_getElem inInput]

private theorem cString_cons {byte : UInt8} (notNul : byte ≠ 0) (text : Bytes) :
    cString (byte :: text) = byte :: cString text :=
  List.takeWhile_cons_of_pos (by simpa using notNul)

theorem padBase64_base64UrlEncode (input : Bytes) :
    padBase64 (base64UrlEncode input) = base64Encode input := by
  have visible : ∀ sextet, toUrlChar (base64Char sextet) ≠ 0 :=
    fun sextet => (base64Char_spec sextet).2.2.1
  have restored : ∀ sextet, fromUrlChar (toUrlChar (base64Char sextet)) = base64Char sextet :=
    fun sextet => (base64Char_spec sextet).2.2.2.2
  have padding : toUrlChar 61 = 0 := by
    decide
  unfold base64UrlEncode
  fun_induction base64Encode input with
  | case1 => rfl
  | case2 octetA =>
      simp [encodeTriple, padding, visible, padBase64, restored, cString, List.replicate]
  | case3 octetA octetB => simp [encodeTriple, padding, visible, padBase64, restored, cString]
  | case4 octetA octetB octetC rest ih =>
      have group : ∀ text : Bytes,
          padBase64 ((encodeTriple octetA octetB octetC).map toUrlChar ++ text) =
            encodeTriple octetA octetB octetC ++ padBase64 text := by
        intro text
        have samePadding :
            (4 - ((encodeTriple octetA octetB octetC).map toUrlChar ++ text).length % 4) % 4 =
              (4 - text.length % 4) % 4 := by
          rw [List.length_append, List.length_map, encodeTriple_length, Nat.add_mod_left]
        rw [padBase64, samePadding]
        simp [padBase64, encodeTriple, restored]
      have kept :
          cString ((encodeTriple octetA octetB octetC ++ base64Encode rest).map toUrlChar) =
            (encodeTriple octetA octetB octetC).map toUrlChar ++
              cString ((base64Encode rest).map toUrlChar) := by
        simp [encodeTriple, cString_cons, visible]
      rw [kept, group, ih]

theorem base64UrlDecode_base64UrlEncode (stale : Nat → UInt8) (input : Bytes) :
    base64UrlDecode stale (base64UrlEncode input) = some input := by
  rw [base64UrlDecode, padBase64_base64UrlEncode, base64Decode_base64Encode]

theorem base64UrlEncode_dotFree (input : Bytes) :
    ∀ char ∈ base64UrlEncode input, char ≠ 46 ∧ char ≠ 0 := by
  intro char member
  have notNul : char ≠ 0 := by
    simpa using List.mem_takeWhile_imp member
  have inMap : char ∈ (base64Encode input).map toUrlChar :=
    (List.takeWhile_sublist _).subset member
  obtain ⟨plain, plainMember, rfl⟩ := List.mem_map.mp inMap
  have valid := List.all_eq_true.mp (base64Encode_valid input) plain plainMember
  refine ⟨?_, notNul⟩
  intro dot
  unfold toUrlChar at dot
  split_ifs at dot
  · exact absurd dot (by decide)
  · exact absurd dot (by decide)
  · exact absurd dot (by decide)
  · subst dot
    exact absurd valid (by decide)

theorem base64UrlEncode_ne_nil {input : Bytes} (nonempty : input ≠ []) :
    base64UrlEncode input ≠ [] := by
  intro empty
  have decoded := base64UrlDecode_base64UrlEncode (fun _ => 0) input
  rw [empty] at decoded
  exact nonempty (Option.some.inj decoded).symm

theorem fromUrlChar_ne_padding {char : UInt8} (different : char ≠ 61) :
    fromUrlChar char ≠ 61 := by
  rw [fromUrlChar]
  split_ifs <;> first | decide | exact different

end Jdbx
