import Jdbx.Library.IntRange
import Jdbx.Rbac.Base64
import Mathlib.Data.List.TakeDrop

/-!
# Where the base64 decoder reads and writes

The lengths of `jwt.c` are `int`s: the encoder computes with the length of its input, and
`base64_url_decode` measures its input with `strlen` and keeps the result in an `int`.  The
decoder is followed here access by access; a computation that leaves `int` has no result.
-/

namespace Jdbx

open Library

/-- A `size_t` that is kept in an `int`. -/
def intOfSize (size : Nat) : Int :=
  let low : Int := size % 2 ^ 32
  if low ≤ intMax then low else low - 2 ^ 32

/-- An access to a byte of a block. -/
structure BlockAccess where
  index : Int
  size : Int
  deriving DecidableEq

def BlockAccess.Inside (access : BlockAccess) : Prop :=
  0 ≤ access.index ∧ access.index < access.size

instance : DecidablePred BlockAccess.Inside :=
  fun _ => inferInstanceAs (Decidable (_ ∧ _))

def firstBytes (count : Nat) (size : Int) : List BlockAccess :=
  (List.range count).map fun place : Nat => { index := place, size }

/-- `encoded_len` of `base64_encode`, and one more for the `NUL`. -/
def encodedLen (length : Int) : Option Int :=
  (asInt (length + 2)).bind fun sum =>
    (asInt (sum.tdiv 3 * 4)).bind fun encodedLen => (asInt (encodedLen + 1)).map fun _ => encodedLen

/-- `base64_url_encode`, whose callers pass the length of the input as an `int`.  No block has a
negative length. -/
def base64UrlEncodeAt (input : Bytes) : Option Bytes :=
  let length := intOfSize input.length
  (encodedLen length).bind fun encodedLen =>
    if 0 ≤ encodedLen then some (base64UrlEncode (input.take length.toNat)) else none

/-- The sextet that the loop takes at an index, and the index behind it.  Behind the end of the
text a padding character is taken. -/
def sextetAt (text : Bytes) (i : Nat) : Nat × Nat :=
  let char := if i < text.length then text.getD i 0 else 61
  if char = 61 then (0, i + 2) else (decodeTable char, i + 1)

def guardedRead (text : Bytes) (size : Int) (i : Nat) : List BlockAccess :=
  if i < text.length then [⟨i, size⟩] else []

/-- The decoding loop from the indices `i` and `j` on: its accesses and the octets that it
writes.  An octet is only written before `decoded_len`. -/
def decodeLoopAt (text : Bytes) (size decodedLen : Int) :
    Nat → Nat → Nat → Option (List BlockAccess × Bytes)
  | 0, _, _ => some ([], [])
  | fuel + 1, i, j =>
      if i < text.length then
        let (sextetA, b) := sextetAt text i
        let (sextetB, c) := sextetAt text b
        let (sextetC, d) := sextetAt text c
        let (sextetD, next) := sextetAt text d
        let reads := [⟨i, size⟩] ++ guardedRead text size b ++ guardedRead text size c ++
          guardedRead text size d
        (asInt next).bind fun _ =>
          let triple := sextetA * 2 ^ 18 + sextetB * 2 ^ 12 + sextetC * 2 ^ 6 + sextetD
          let octets := [(triple / 2 ^ 16).toUInt8, (triple / 2 ^ 8).toUInt8, triple.toUInt8]
          let written := octets.take (decodedLen - j).toNat
          let writes := (List.range written.length).map fun k : Nat =>
            { index := j + k, size := decodedLen + 1 : BlockAccess }
          (decodeLoopAt text size decodedLen fuel next (j + written.length)).map fun later =>
            (reads ++ writes ++ later.1, written ++ later.2)
      else some ([], [])

/-- `base64_decode`: its accesses and what it returns.  `granted` tells whether the block for the
output is allocated. -/
def base64DecodeAt (granted : Bool) (stale : Nat → UInt8) (input : Bytes) :
    Option (List BlockAccess × Option Bytes) :=
  let size : Int := input.length + 1
  let inputLen := intOfSize input.length
  let text := input.take inputLen.toNat
  let measured := firstBytes (input.length + 1) size
  if inputLen.tmod 4 ≠ 0 then some (measured, none)
  else
    -- The validation stops at the first character that is not valid.
    let validated := firstBytes (min text.length ((text.takeWhile validBase64Char).length + 1)) size
    if ¬ text.all validBase64Char then some (measured ++ validated, none)
    else
      let decodedLen : Int := inputLen.tdiv 4 * 3 - paddingAt 1 text - paddingAt 2 text
      let ends := (if 0 < inputLen then [⟨inputLen - 1, size⟩] else []) ++
        if 1 < inputLen then [⟨inputLen - 2, size⟩] else []
      if ¬ granted then some (measured ++ validated ++ ends, none)
      else
        (decodeLoopAt text size decodedLen text.length 0 0).map fun run =>
          (measured ++ validated ++ ends ++ run.1 ++ [⟨decodedLen, decodedLen + 1⟩],
            some ((List.range decodedLen.toNat).map fun j => run.2.getD j (stale j)))

/-- The blocks that `base64_url_decode` allocates. -/
inductive Base64Block where
  | inputCopy
  | paddedInput
  | output
  deriving DecidableEq, Repr

/-- `base64_url_decode`: its accesses and what it returns. -/
def base64UrlDecodeAt (granted : Base64Block → Bool) (stale : Nat → UInt8) (input : Bytes) :
    Option (List BlockAccess × Option Bytes) :=
  -- `strdup` reads the input, and the substitution and `strlen` go through the copy.
  let whole := firstBytes (input.length + 1) (input.length + 1)
  if ¬ granted .inputCopy then some (whole, none)
  else
    let len := intOfSize input.length
    let padding := (4 - len.tmod 4).tmod 4
    (asInt (len + padding + 1)).bind fun size =>
      if ¬ granted .paddedInput then some (whole ++ whole, none)
      else
        let writes := firstBytes (input.length + 1) size ++
          ((List.range padding.toNat).map fun i : Nat => { index := len + i, size }) ++
            [⟨len + padding, size⟩]
        let paddedInput := (input.map fromUrlChar).take len.toNat ++
          List.replicate padding.toNat 61
        (base64DecodeAt (granted .output) stale paddedInput).map fun decoded =>
          (whole ++ whole ++ writes ++ decoded.1, decoded.2)

def DecodesInside (text : Bytes) : Prop :=
  ∀ granted stale, ∃ outcome, base64UrlDecodeAt granted stale text = some outcome ∧
    ∀ access ∈ outcome.1, access.Inside

def DecodesBack (input : Bytes) : Prop :=
  ∀ stale, ((base64UrlEncodeAt input).bind fun encoded =>
    (base64UrlDecodeAt (fun _ => true) stale encoded).bind Prod.snd) = some input

/-- The place behind a sextet: a padding character takes the character behind it along, and
behind the end there is nothing but padding. -/
def nextPlace (text : Bytes) (i : Nat) : Nat :=
  if text.getD i 61 = 61 then i + 2 else i + 1

def nextGroup (text : Bytes) (i : Nat) : Nat :=
  nextPlace text (nextPlace text (nextPlace text (nextPlace text i)))

def groupsEnd (text : Bytes) : Nat → Nat → Nat
  | 0, i => i
  | fuel + 1, i => if i < text.length then groupsEnd text fuel (nextGroup text i) else i

/-- The padded text has a length that is an `int`, and so has the place behind its last group if
it is decoded at all. -/
def DecodableSize (text : Bytes) : Prop :=
  text.length ≤ 2147483644 ∧
    ((padBase64 text).all validBase64Char = true →
      groupsEnd (padBase64 text) (padBase64 text).length 0 ≤ 2147483647)

/-! ## Reading a group -/

section Loop

variable {text : Bytes}

theorem firstBytes_inside {count : Nat} {size : Int} (fits : count ≤ size) :
    ∀ access ∈ firstBytes count size, access.Inside := by
  intro access member
  obtain ⟨place, inRange, rfl⟩ := List.mem_map.mp member
  rw [List.mem_range] at inRange
  constructor <;> dsimp only <;> omega

theorem guardedRead_inside {size : Int} (fits : text.length ≤ size) (i : Nat) :
    ∀ access ∈ guardedRead text size i, access.Inside := by
  intro access member
  rw [guardedRead] at member
  split_ifs at member with before
  · obtain rfl := List.mem_singleton.mp member
    constructor <;> dsimp only <;> omega
  · cases member

theorem sextetAt_eq (text : Bytes) (i : Nat) :
    sextetAt text i = ((nextSextet (text.drop i)).1, nextPlace text i) ∧
      (nextSextet (text.drop i)).2 = text.drop (nextPlace text i) := by
  by_cases before : i < text.length
  · have char : ∀ other, text.getD i other = text[i] := by
      intro other
      rw [List.getD_eq_getElem?_getD, List.getElem?_eq_getElem before, Option.getD_some]
    rw [List.drop_eq_getElem_cons before, nextSextet, sextetAt, nextPlace, if_pos before, char,
      char]
    by_cases padding : text[i] = 61
    · simp only [if_pos padding, List.drop_drop, true_and]
    · simp only [if_neg padding, and_self]
  · have behind : text.drop i = [] := List.drop_eq_nil_of_le (Nat.le_of_not_lt before)
    have char : text.getD i 61 = 61 := by
      rw [List.getD_eq_getElem?_getD, List.getElem?_eq_none (Nat.le_of_not_lt before),
        Option.getD_none]
    rw [behind, sextetAt, nextPlace, if_neg before, if_pos char]
    exact ⟨rfl, (List.drop_eq_nil_of_le (by omega)).symm⟩

theorem lt_nextPlace (text : Bytes) (i : Nat) :
    i < nextPlace text i ∧ nextPlace text i ≤ i + 2 := by
  rw [nextPlace]
  split_ifs <;> omega

theorem nextGroup_bounds (text : Bytes) (i : Nat) :
    i + 4 ≤ nextGroup text i ∧ nextGroup text i ≤ i + 8 := by
  have first := lt_nextPlace text i
  have second := lt_nextPlace text (nextPlace text i)
  have third := lt_nextPlace text (nextPlace text (nextPlace text i))
  have fourth := lt_nextPlace text (nextPlace text (nextPlace text (nextPlace text i)))
  rw [nextGroup]
  omega

theorem le_groupsEnd (text : Bytes) : ∀ fuel i, i ≤ groupsEnd text fuel i := by
  intro fuel
  induction fuel with
  | zero => exact fun i => Nat.le_refl i
  | succ fuel ih =>
      intro i
      rw [groupsEnd]
      split_ifs
      · have later := ih (nextGroup text i)
        have bounds := nextGroup_bounds text i
        omega
      · exact Nat.le_refl i

def groupOctets (text : Bytes) (i : Nat) : Bytes :=
  let triple := (sextetAt text i).1 * 2 ^ 18 + (sextetAt text (nextPlace text i)).1 * 2 ^ 12 +
    (sextetAt text (nextPlace text (nextPlace text i))).1 * 2 ^ 6 +
      (sextetAt text (nextPlace text (nextPlace text (nextPlace text i)))).1
  [(triple / 2 ^ 16).toUInt8, (triple / 2 ^ 8).toUInt8, triple.toUInt8]

def groupReads (text : Bytes) (size : Int) (i : Nat) : List BlockAccess :=
  [⟨i, size⟩] ++ guardedRead text size (nextPlace text i) ++
    guardedRead text size (nextPlace text (nextPlace text i)) ++
      guardedRead text size (nextPlace text (nextPlace text (nextPlace text i)))

theorem decodeLoop_succ (fuel : Nat) {i : Nat} (before : i < text.length) :
    decodeLoop (fuel + 1) (text.drop i) =
      groupOctets text i ++ decodeLoop fuel (text.drop (nextGroup text i)) := by
  have unfolded : ∀ input : Bytes, input ≠ [] → decodeLoop (fuel + 1) input =
      let first := nextSextet input
      let second := nextSextet first.2
      let third := nextSextet second.2
      let fourth := nextSextet third.2
      let triple := first.1 * 2 ^ 18 + second.1 * 2 ^ 12 + third.1 * 2 ^ 6 + fourth.1
      (triple / 2 ^ 16).toUInt8 :: (triple / 2 ^ 8).toUInt8 :: triple.toUInt8 ::
        decodeLoop fuel fourth.2 := by
    intro input nonempty
    cases input with
    | nil => exact absurd rfl nonempty
    | cons char rest => rfl
  have nonempty : text.drop i ≠ [] := by
    rw [ne_eq, List.drop_eq_nil_iff]
    omega
  rw [unfolded _ nonempty, groupOctets]
  dsimp only
  simp only [sextetAt_eq, nextGroup]
  rfl

theorem decodeLoopAt_succ (size decodedLen : Int) (fuel : Nat) {i : Nat} (before : i < text.length)
    (j : Nat) : decodeLoopAt text size decodedLen (fuel + 1) i j =
      (asInt (nextGroup text i)).bind fun _ =>
        let written := (groupOctets text i).take (decodedLen - j).toNat
        let writes := (List.range written.length).map fun k : Nat =>
          { index := j + k, size := decodedLen + 1 : BlockAccess }
        (decodeLoopAt text size decodedLen fuel (nextGroup text i) (j + written.length)).map
          fun later => (groupReads text size i ++ writes ++ later.1, written ++ later.2) := by
  have places : ∀ i, (sextetAt text i).2 = nextPlace text i :=
    fun i => congrArg Prod.snd (sextetAt_eq text i).1
  rw [decodeLoopAt, if_pos before]
  dsimp only
  simp only [places]
  rfl

theorem groupReads_inside {size : Int} (fits : text.length ≤ size) {i : Nat}
    (before : i < text.length) : ∀ access ∈ groupReads text size i, access.Inside := by
  intro access member
  rw [groupReads, List.mem_append, List.mem_append, List.mem_append, List.mem_singleton] at member
  rcases member with ((first | second) | third) | fourth
  · subst first
    constructor <;> dsimp only <;> omega
  · exact guardedRead_inside fits _ access second
  · exact guardedRead_inside fits _ access third
  · exact guardedRead_inside fits _ access fourth

theorem take_append_take (octets rest : Bytes) (decodedLen : Int) (j : Nat) :
    (octets ++ rest).take (decodedLen - j).toNat =
      octets.take (decodedLen - j).toNat ++
        rest.take (decodedLen - (j + (octets.take (decodedLen - j).toNat).length : Nat)).toNat := by
  rw [List.take_append, List.length_take]
  congr 2
  omega

theorem decodeLoopAt_eq {size decodedLen : Int} (fits : text.length ≤ size) :
    ∀ fuel i j : Nat, i ≤ 2147483647 → (j : Int) ≤ decodedLen →
      if groupsEnd text fuel i ≤ 2147483647 then
        ∃ accesses, decodeLoopAt text size decodedLen fuel i j = some (accesses,
          (decodeLoop fuel (text.drop i)).take (decodedLen - j).toNat) ∧
            ∀ access ∈ accesses, access.Inside
      else decodeLoopAt text size decodedLen fuel i j = none := by
  intro fuel
  induction fuel with
  | zero =>
      intro i j small _
      rw [groupsEnd, if_pos small, decodeLoop, List.take_nil]
      exact ⟨[], rfl, fun access member => absurd member List.not_mem_nil⟩
  | succ fuel ih =>
      intro i j small inOutput
      rw [groupsEnd]
      by_cases before : i < text.length
      · rw [if_pos before, decodeLoopAt_succ size decodedLen fuel before, asInt_natCast]
        by_cases fitsInt : nextGroup text i ≤ 2147483647
        · rw [if_pos fitsInt, Option.bind_some, decodeLoop_succ fuel before, take_append_take]
          dsimp only
          have room := List.length_take_le (decodedLen - j).toNat (groupOctets text i)
          generalize (groupOctets text i).take (decodedLen - j).toNat = written at room ⊢
          have later := ih (nextGroup text i) (j + written.length) fitsInt
            (by omega)
          split_ifs at later ⊢ with ends
          · obtain ⟨accesses, run, inside⟩ := later
            rw [run]
            refine ⟨_, rfl, ?_⟩
            intro access member
            rcases List.mem_append.mp member with first | member
            · rcases List.mem_append.mp first with read | written
              · exact groupReads_inside fits before access read
              · obtain ⟨k, inRange, rfl⟩ := List.mem_map.mp written
                rw [List.mem_range] at inRange
                constructor <;> dsimp only <;> omega
            · exact inside access member
          · rw [later]
            rfl
        · have beyond := le_groupsEnd text fuel (nextGroup text i)
          rw [if_neg fitsInt, if_neg (by omega)]
          rfl
      · have behind : text.drop i = [] := List.drop_eq_nil_of_le (Nat.le_of_not_lt before)
        rw [if_neg before, if_pos small, decodeLoopAt, if_neg before, behind, decodeLoop,
          List.take_nil]
        exact ⟨[], rfl, fun access member => absurd member List.not_mem_nil⟩

end Loop

section Decode

variable {input : Bytes}

theorem intOfSize_of_small {size : Nat} (small : size ≤ 2147483647) : intOfSize size = size := by
  have fits : (size : Int) % 2 ^ 32 ≤ intMax := by
    rw [intMax]
    omega
  rw [intOfSize, if_pos fits]
  omega

theorem decodedLength_cast (whole : input.length % 4 = 0) :
    ((input.length : Int).tdiv 4 * 3 - paddingAt 1 input - paddingAt 2 input : Int) =
      decodedLength input := by
  have bit : ∀ fromEnd, paddingAt fromEnd input ≤ 1 := by
    intro fromEnd
    rw [paddingAt]
    split_ifs <;> decide
  have one := bit 1
  have two := bit 2
  have none : input.length = 0 → paddingAt 1 input = 0 ∧ paddingAt 2 input = 0 := by
    intro empty
    rw [paddingAt, paddingAt, if_neg (by omega), if_neg (by omega)]
    exact ⟨rfl, rfl⟩
  rw [decodedLength, Int.tdiv_eq_ediv_of_nonneg (by omega)]
  omega

/-- The run of `base64_decode` on a text whose length is an `int`. -/
theorem base64DecodeAt_eq (small : input.length ≤ 2147483647) (granted : Bool)
    (stale : Nat → UInt8) :
    if granted = true ∧ input.length % 4 = 0 ∧ input.all validBase64Char = true ∧
        2147483647 < groupsEnd input input.length 0 then
      base64DecodeAt granted stale input = none
    else
      ∃ accesses, base64DecodeAt granted stale input =
          some (accesses, if granted then base64Decode stale input else none) ∧
        ∀ access ∈ accesses, access.Inside := by
  have measured : ∀ access ∈ firstBytes (input.length + 1) (input.length + 1), access.Inside :=
    firstBytes_inside (by omega)
  have validated : ∀ access ∈ firstBytes
      (min input.length ((input.takeWhile validBase64Char).length + 1)) (input.length + 1),
        access.Inside := firstBytes_inside (by omega)
  have modulo : (input.length : Int).tmod 4 = (input.length % 4 : Nat) := by
    rw [Int.tmod_eq_emod_of_nonneg (by omega)]
    omega
  unfold base64DecodeAt base64Decode
  simp only [intOfSize_of_small small, Int.toNat_natCast, List.take_length, modulo]
  by_cases whole : input.length % 4 = 0
  · by_cases valid : input.all validBase64Char = true
    · have notBroken : ¬ ((input.length % 4 : Nat) : Int) ≠ 0 := by omega
      rw [if_neg notBroken, if_neg (not_not_intro valid), if_neg (not_not_intro whole),
        if_neg (not_not_intro valid), decodedLength_cast whole]
      have ends : ∀ access ∈ (if 0 < (input.length : Int) then
          [(⟨input.length - 1, input.length + 1⟩ : BlockAccess)] else []) ++
            if 1 < (input.length : Int) then [⟨input.length - 2, input.length + 1⟩] else [],
              access.Inside := by
        intro access member
        rw [List.mem_append, List.mem_ite_nil_right, List.mem_ite_nil_right, List.mem_singleton,
          List.mem_singleton] at member
        rcases member with ⟨_, rfl⟩ | ⟨_, rfl⟩ <;> constructor <;> dsimp only <;> omega
      have before : ∀ access ∈ firstBytes (input.length + 1) (input.length + 1) ++
          firstBytes (min input.length ((input.takeWhile validBase64Char).length + 1))
            (input.length + 1) ++ ((if 0 < (input.length : Int) then
              [(⟨input.length - 1, input.length + 1⟩ : BlockAccess)] else []) ++
                if 1 < (input.length : Int) then [⟨input.length - 2, input.length + 1⟩] else []),
            access.Inside :=
        List.forall_mem_append.mpr ⟨List.forall_mem_append.mpr ⟨measured, validated⟩, ends⟩
      cases granted with
      | false =>
          rw [if_neg (fun both => Bool.false_ne_true both.1), if_pos Bool.false_ne_true]
          exact ⟨_, rfl, before⟩
      | true =>
          have loop := @decodeLoopAt_eq input (input.length + 1) (decodedLength input) (by omega)
            input.length 0 0 (by omega) (by omega)
          rw [if_neg (not_not_intro rfl)]
          by_cases reaches : groupsEnd input input.length 0 ≤ 2147483647
          · rw [if_pos reaches] at loop
            obtain ⟨accesses, run, inside⟩ := loop
            have last : ∀ access ∈
                [(⟨decodedLength input, decodedLength input + 1⟩ : BlockAccess)],
                  access.Inside := by
              intro access member
              obtain rfl := List.mem_singleton.mp member
              constructor <;> dsimp only <;> omega
            have output : ∀ octets : Bytes, (List.range (decodedLength input)).map
                (fun j => (octets.take (decodedLength input)).getD j (stale j)) =
                  (List.range (decodedLength input)).map fun j => octets.getD j (stale j) := by
              intro octets
              apply List.map_congr_left
              intro j inRange
              rw [List.mem_range] at inRange
              rw [List.getD_eq_getElem?_getD, List.getD_eq_getElem?_getD,
                List.getElem?_take_of_lt inRange]
            rw [if_neg (by omega), run, if_pos rfl, Option.map_some]
            simp only [Int.sub_zero, Int.toNat_natCast, Nat.cast_zero, List.drop_zero, output]
            exact ⟨_, rfl, List.forall_mem_append.mpr
              ⟨List.forall_mem_append.mpr ⟨before, inside⟩, last⟩⟩
          · rw [if_neg reaches] at loop
            rw [if_pos ⟨rfl, whole, valid, Nat.lt_of_not_le reaches⟩, loop]
            rfl
    · rw [if_neg (fun both => valid both.2.2.1), if_neg (by omega), if_pos valid,
        if_neg (not_not_intro whole), if_pos valid]
      refine ⟨_, by rw [ite_self], ?_⟩
      intro access member
      exact (List.mem_append.mp member).elim (measured access) (validated access)
  · rw [if_neg (fun both => whole both.2.1), if_pos (by omega), if_pos whole]
    exact ⟨_, by rw [ite_self], measured⟩

end Decode

section Groups

variable {text : Bytes}

theorem groupsEnd_padded {chars : Bytes} {padding : Nat} (plain : (61 : UInt8) ∉ chars)
    (few : padding < 4) (whole : (chars.length + padding) % 4 = 0) : ∀ fuel i, i % 4 = 0 →
      i ≤ chars.length + padding + 3 →
        groupsEnd (chars ++ List.replicate padding 61) fuel i ≤ chars.length + padding + 3 := by
  have place : ∀ i, nextPlace (chars ++ List.replicate padding 61) i =
      if i < chars.length then i + 1 else i + 2 := by
    intro i
    rw [nextPlace, List.getD_eq_getElem?_getD]
    by_cases inside : i < chars.length
    · have notPadding : chars[i] ≠ 61 := fun same => plain (same ▸ List.getElem_mem inside)
      rw [List.getElem?_append_left inside, List.getElem?_eq_getElem inside, Option.getD_some,
        if_neg notPadding, if_pos inside]
    · have behind : ((List.replicate padding (61 : UInt8))[i - chars.length]?).getD 61 = 61 := by
        rw [List.getElem?_replicate]
        split_ifs <;> rfl
      rw [List.getElem?_append_right (Nat.le_of_not_lt inside), behind, if_pos rfl, if_neg inside]
  intro fuel
  induction fuel with
  | zero => exact fun i _ near => near
  | succ fuel ih =>
      intro i aligned near
      rw [groupsEnd, List.length_append, List.length_replicate]
      split_ifs with before
      · by_cases full : i + 3 < chars.length
        · have next : nextGroup (chars ++ List.replicate padding 61) i = i + 4 := by
            simp only [nextGroup, place]
            split_ifs <;> omega
          rw [next]
          exact ih (i + 4) (by omega) (by omega)
        · -- The last group holds a character at least.
          have next : nextGroup (chars ++ List.replicate padding 61) i ≤
              chars.length + padding + 3 ∧ chars.length + padding ≤
                nextGroup (chars ++ List.replicate padding 61) i := by
            simp only [nextGroup, place]
            split_ifs <;> omega
          cases fuel with
          | zero => exact next.1
          | succ fuel =>
              rw [groupsEnd, List.length_append, List.length_replicate, if_neg (by omega)]
              exact next.1
      · exact near

theorem padBase64_length (text : Bytes) :
    (padBase64 text).length = text.length + (4 - text.length % 4) % 4 := by
  rw [padBase64, List.length_append, List.length_map, List.length_replicate]

theorem decodableSize_of_unpadded (unpadded : (61 : UInt8) ∉ text)
    (small : text.length ≤ 2147483644) : DecodableSize text := by
  refine ⟨small, fun _ => ?_⟩
  have plain : (61 : UInt8) ∉ text.map fromUrlChar := by
    intro member
    obtain ⟨char, inText, padding⟩ := List.mem_map.mp member
    exact fromUrlChar_ne_padding (fun same => unpadded (same ▸ inText)) padding
  have near := @groupsEnd_padded _ ((4 - text.length % 4) % 4) plain (Nat.mod_lt _ (by decide))
    (by rw [List.length_map]; omega) (padBase64 text).length 0 rfl
    (Nat.zero_le _)
  rw [List.length_map] at near
  rw [padBase64] at near ⊢
  omega

end Groups

section UrlDecode

variable {text : Bytes}

theorem padding_eq (small : text.length ≤ 2147483647) :
    (4 - (intOfSize text.length).tmod 4).tmod 4 = ((4 - text.length % 4) % 4 : Nat) := by
  rw [intOfSize_of_small small, Int.tmod_eq_emod_of_nonneg (a := text.length) (by omega),
    Int.tmod_eq_emod_of_nonneg (by omega)]
  omega

theorem base64UrlDecodeAt_of_small (small : text.length ≤ 2147483644)
    {granted : Base64Block → Bool} (copied : granted .inputCopy = true)
    (padded : granted .paddedInput = true) (stale : Nat → UInt8) :
    ∃ accesses, (∀ access ∈ accesses, access.Inside) ∧
      base64UrlDecodeAt granted stale text =
        (base64DecodeAt (granted .output) stale (padBase64 text)).map
          fun decoded => (accesses ++ decoded.1, decoded.2) := by
  have measured : ∀ access ∈ firstBytes (text.length + 1) (text.length + 1), access.Inside :=
    firstBytes_inside (by omega)
  have fits : asInt (text.length + ((4 - text.length % 4) % 4 : Nat) + 1) =
      some (text.length + ((4 - text.length % 4) % 4 : Nat) + 1 : Int) :=
    asInt_of_small (by omega) (by omega)
  have paddedInput : (text.map fromUrlChar).take (text.length : Int).toNat ++
      List.replicate (((4 - text.length % 4) % 4 : Nat) : Int).toNat 61 = padBase64 text := by
    rw [Int.toNat_natCast, Int.toNat_natCast, padBase64,
      List.take_of_length_le (by rw [List.length_map])]
  have copies : ∀ access ∈ firstBytes (text.length + 1)
      (text.length + ((4 - text.length % 4) % 4 : Nat) + 1), access.Inside :=
    firstBytes_inside (by omega)
  have pads : ∀ access ∈ (List.range (((4 - text.length % 4) % 4 : Nat) : Int).toNat).map
      (fun i : Nat => (⟨text.length + i, text.length + ((4 - text.length % 4) % 4 : Nat) + 1⟩ :
        BlockAccess)), access.Inside := by
    intro access member
    obtain ⟨i, inRange, rfl⟩ := List.mem_map.mp member
    rw [List.mem_range, Int.toNat_natCast] at inRange
    constructor <;> dsimp only <;> omega
  have last : ∀ access ∈ [(⟨text.length + ((4 - text.length % 4) % 4 : Nat),
      text.length + ((4 - text.length % 4) % 4 : Nat) + 1⟩ : BlockAccess)], access.Inside := by
    intro access member
    obtain rfl := List.mem_singleton.mp member
    constructor <;> dsimp only <;> omega
  rw [base64UrlDecodeAt, if_neg (not_not_intro copied)]
  dsimp only
  rw [padding_eq (by omega), intOfSize_of_small (by omega), fits, Option.bind_some,
    if_neg (not_not_intro padded), paddedInput]
  exact ⟨_, List.forall_mem_append.mpr ⟨List.forall_mem_append.mpr ⟨measured, measured⟩,
    List.forall_mem_append.mpr ⟨List.forall_mem_append.mpr ⟨copies, pads⟩, last⟩⟩, rfl⟩

theorem base64UrlDecodeAt_eq (decodable : DecodableSize text) (granted : Base64Block → Bool)
    (stale : Nat → UInt8) : ∃ accesses, base64UrlDecodeAt granted stale text = some (accesses,
      if granted .inputCopy ∧ granted .paddedInput ∧ granted .output then
        base64UrlDecode stale text else none) ∧ ∀ access ∈ accesses, access.Inside := by
  obtain ⟨small, ends⟩ := decodable
  have measured : ∀ access ∈ firstBytes (text.length + 1) (text.length + 1), access.Inside :=
    firstBytes_inside (by omega)
  by_cases copied : granted .inputCopy = true
  · by_cases padded : granted .paddedInput = true
    · obtain ⟨before, stays, run⟩ := base64UrlDecodeAt_of_small small copied padded stale
      have decoded := @base64DecodeAt_eq (padBase64 text) (by rw [padBase64_length]; omega)
        (granted .output) stale
      rw [if_neg (fun beyond => Nat.not_lt.mpr (ends beyond.2.2.1) beyond.2.2.2)] at decoded
      obtain ⟨accesses, decodes, inside⟩ := decoded
      refine ⟨before ++ accesses, ?_, List.forall_mem_append.mpr ⟨stays, inside⟩⟩
      rw [run, decodes]
      simp only [copied, padded, true_and, Option.map_some, base64UrlDecode]
    · have fits : asInt (text.length + ((4 - text.length % 4) % 4 : Nat) + 1) =
          some (text.length + ((4 - text.length % 4) % 4 : Nat) + 1 : Int) :=
        asInt_of_small (by omega) (by omega)
      rw [base64UrlDecodeAt, if_neg (not_not_intro copied), if_neg (fun all => padded all.2.1)]
      dsimp only
      rw [padding_eq (by omega), intOfSize_of_small (by omega), fits, Option.bind_some,
        if_pos padded]
      exact ⟨_, rfl, List.forall_mem_append.mpr ⟨measured, measured⟩⟩
  · rw [base64UrlDecodeAt, if_pos copied, if_neg (fun all => copied all.1)]
    exact ⟨_, rfl, measured⟩

theorem intOfSize_bounds (size : Nat) :
    intOfSize size ≤ 2147483647 ∧ (2147483647 < size → intOfSize size + 2 ^ 32 ≤ size) := by
  rw [intOfSize, intMax]
  split_ifs <;> omega

theorem not_decodesInside_of_long (long : 2147483644 < text.length) : ¬ DecodesInside text := by
  intro inside
  obtain ⟨outcome, run, all⟩ := inside (fun _ => true) fun _ => 0
  have bounds := intOfSize_bounds text.length
  have padding : (4 - (intOfSize text.length).tmod 4).tmod 4 ≤ 3 := by
    have below := Int.tmod_lt_of_pos (4 - (intOfSize text.length).tmod 4) (b := 4) (by decide)
    omega
  rw [base64UrlDecodeAt, if_neg (by decide)] at run
  dsimp only at run
  cases sized : asInt (intOfSize text.length + (4 - (intOfSize text.length).tmod 4).tmod 4 + 1) with
  | none =>
      rw [sized] at run
      cases run
  | some size =>
      rw [sized, Option.bind_some, if_neg (by decide)] at run
      obtain ⟨decoded, -, rfl⟩ := Option.map_eq_some_iff.mp run
      have short : size ≤ text.length := by
        obtain ⟨rfl, fits⟩ := asInt_eq_some sized
        by_cases int : text.length ≤ 2147483647
        · have whole := padding_eq int
          have exact := intOfSize_of_small int
          omega
        · omega
      have overrun : (⟨text.length, size⟩ : BlockAccess) ∈ firstBytes (text.length + 1) size :=
        List.mem_map.mpr ⟨text.length, List.mem_range.mpr (Nat.lt_succ_self _), rfl⟩
      have stays := all ⟨text.length, size⟩ (by simp [overrun])
      have before : (text.length : Int) < size := stays.2
      omega

theorem decodesInside_iff (text : Bytes) : DecodesInside text ↔ DecodableSize text := by
  constructor
  · intro inside
    have small : text.length ≤ 2147483644 := by
      by_contra long
      exact not_decodesInside_of_long (Nat.lt_of_not_le long) inside
    refine ⟨small, fun valid => ?_⟩
    by_contra beyond
    obtain ⟨outcome, run, -⟩ := inside (fun _ => true) fun _ => 0
    obtain ⟨before, -, same⟩ := @base64UrlDecodeAt_of_small text small (fun _ => true) rfl rfl
      fun _ => 0
    have decoded := @base64DecodeAt_eq (padBase64 text) (by rw [padBase64_length]; omega) true
      fun _ => 0
    have whole : (padBase64 text).length % 4 = 0 := by
      rw [padBase64_length]
      omega
    rw [if_pos ⟨rfl, whole, valid, Nat.lt_of_not_le beyond⟩] at decoded
    rw [same, decoded] at run
    cases run
  · intro decodable granted stale
    obtain ⟨accesses, run, inside⟩ := base64UrlDecodeAt_eq decodable granted stale
    exact ⟨_, run, inside⟩

end UrlDecode

section RoundTrip

variable {input : Bytes}

theorem base64UrlEncodeAt_of_small (small : input.length ≤ 1610612733) :
    base64UrlEncodeAt input = some (base64UrlEncode input) := by
  have length : encodedLen input.length = some ((input.length + 2) / 3 * 4 : Int) := by
    rw [encodedLen, asInt_of_small (by omega) (by omega), Option.bind_some,
      Int.tdiv_eq_ediv_of_nonneg (by omega), asInt_of_small (by omega) (by omega),
      Option.bind_some, asInt_of_small (by omega) (by omega), Option.map_some]
  rw [base64UrlEncodeAt, intOfSize_of_small (by omega), length]
  dsimp only [Option.bind_some]
  rw [if_pos (by omega), Int.toNat_natCast, List.take_length]

theorem length_le_of_encodedLen {length encoded : Int} (found : encodedLen length = some encoded) :
    length ≤ 1610612733 := by
  by_contra long
  obtain ⟨sum, added, rest⟩ := Option.bind_eq_some_iff.mp found
  obtain ⟨product, multiplied, -⟩ := Option.bind_eq_some_iff.mp rest
  obtain ⟨rfl, -⟩ := asInt_eq_some added
  obtain ⟨-, fits⟩ := asInt_eq_some multiplied
  rw [Int.tdiv_eq_ediv_of_nonneg (by omega)] at fits
  omega

theorem base64UrlEncode_length_le (input : Bytes) :
    (base64UrlEncode input).length ≤ (input.length + 2) / 3 * 4 := by
  have cut := (List.takeWhile_sublist (fun byte => decide (byte ≠ 0))
    (l := (base64Encode input).map toUrlChar)).length_le
  rwa [List.length_map, base64Encode_length] at cut

theorem base64UrlEncode_unpadded (input : Bytes) : (61 : UInt8) ∉ base64UrlEncode input := by
  intro member
  have inMap : (61 : UInt8) ∈ (base64Encode input).map toUrlChar :=
    (List.takeWhile_sublist _).subset member
  obtain ⟨char, -, same⟩ := List.mem_map.mp inMap
  rw [toUrlChar] at same
  split_ifs at same with plus slash padding
  · exact absurd same (by decide)
  · exact absurd same (by decide)
  · exact absurd same (by decide)
  · exact padding same

theorem decoded_of_small (small : input.length ≤ 1610612733) (stale : Nat → UInt8) :
    (base64UrlDecodeAt (fun _ => true) stale (base64UrlEncode input)).bind Prod.snd =
      some input := by
  have length := base64UrlEncode_length_le input
  have decodable : DecodableSize (base64UrlEncode input) :=
    decodableSize_of_unpadded (base64UrlEncode_unpadded input) (by omega)
  obtain ⟨accesses, run, -⟩ := base64UrlDecodeAt_eq decodable (fun _ => true) stale
  rw [run, Option.bind_some, if_pos ⟨rfl, rfl, rfl⟩, base64UrlDecode_base64UrlEncode]

theorem decodesBack_iff (input : Bytes) : DecodesBack input ↔ input.length ≤ 1610612733 := by
  constructor
  · intro trips
    have decoded := trips fun _ => 0
    obtain ⟨encoded, encodes, decodes⟩ := Option.bind_eq_some_iff.mp decoded
    rw [base64UrlEncodeAt] at encodes
    obtain ⟨length, found, kept⟩ := Option.bind_eq_some_iff.mp encodes
    split_ifs at kept
    cases kept
    have short := length_le_of_encodedLen found
    have part : (input.take (intOfSize input.length).toNat).length ≤ 1610612733 := by
      rw [List.length_take]
      omega
    rw [decoded_of_small part, Option.some.injEq, List.take_eq_self_iff] at decodes
    omega
  · intro small stale
    rw [base64UrlEncodeAt_of_small small, Option.bind_some]
    exact decoded_of_small small stale

/-- An input is decoded from its encoding up to 1610612733 bytes, and the decoder stays in its
blocks up to 2147483644 characters, if its groups end in time. -/
theorem base64Url_iff (input text : Bytes) :
    (DecodesBack input ↔ input.length ≤ 1610612733) ∧
      (DecodesInside text ↔ DecodableSize text) :=
  ⟨decodesBack_iff input, decodesInside_iff text⟩

/-- The length of 2 ^ 32 characters is zero as an `int`, and their copy goes over a block of one
byte.  The length of a third of that many bytes is an `int`, but that of their encoding is not. -/
theorem not_decodesInside_long : ¬ DecodesInside (List.replicate (2 ^ 32) 65) ∧
    ¬ DecodesBack (List.replicate 1610612734 0) := by
  constructor
  · apply not_decodesInside_of_long
    rw [List.length_replicate]
    decide
  · rw [decodesBack_iff, List.length_replicate]
    decide

end RoundTrip

end Jdbx
