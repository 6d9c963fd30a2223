-- Texts and their bytes. Reading the bytes of a text gives the text back, so
-- two texts never have the same bytes.
import LifecycleLog.Text.Utf8

namespace LifecycleLog.Utf8

/-! ## Steps of the reader -/

section Steps

variable {index : Nat} {a b c d : UInt8} {rest : List UInt8} {o : Opening}

theorem chars_one (h : width a = 1) :
    chars none index (a :: rest) =
      (chars none (index + 1) rest).map (Char.ofNat a.toNat :: ·) := by
  simp [chars, h]

theorem chars_first (h : 2 ≤ width a) :
    chars none index (a :: rest) = chars (some (.ofFirst index a)) (index + 1) rest := by
  have h₀ : width a ≠ 0 := by omega
  have h₁ : width a ≠ 1 := by omega
  simp [chars, h₀, h₁]

theorem chars_more (hb : o.next b = true) (hd : o.due ≠ 1) :
    chars (some o) index (b :: rest) =
      chars (some ⟨o.start, o.read + 1, o.due - 1, o.bits * 64 + payload b, isContinuation⟩)
        (index + 1) rest := by
  simp [chars, hb, hd]

theorem chars_last (hb : o.next b = true) (hd : o.due = 1) :
    chars (some o) index (b :: rest) =
      (chars none (index + 1) rest).map (Char.ofNat (o.bits * 64 + payload b) :: ·) := by
  simp [chars, hb, hd]

theorem chars_two (hw : width a = 2) (hb : isSecond a b = true) :
    chars none index (a :: b :: rest) =
      (chars none (index + 1 + 1) rest).map (Char.ofNat (a.toNat % 32 * 64 + payload b) :: ·) := by
  have hd : (Opening.ofFirst index a).due = 1 := by simp [Opening.ofFirst, hw]
  rw [chars_first (by omega), chars_last hb hd]
  simp [Opening.ofFirst, hw]

theorem chars_three (hw : width a = 3) (hb : isSecond a b = true) (hc : isContinuation c = true) :
    chars none index (a :: b :: c :: rest) =
      (chars none (index + 1 + 1 + 1) rest).map
        (Char.ofNat ((a.toNat % 16 * 64 + payload b) * 64 + payload c) :: ·) := by
  have hd : (Opening.ofFirst index a).due = 2 := by simp [Opening.ofFirst, hw]
  rw [chars_first (by omega), chars_more hb (by omega), chars_last hc (by simp [hd])]
  simp [Opening.ofFirst, hw]

theorem chars_four (hw : width a = 4) (hb : isSecond a b = true) (hc : isContinuation c = true)
    (he : isContinuation d = true) :
    chars none index (a :: b :: c :: d :: rest) =
      (chars none (index + 1 + 1 + 1 + 1) rest).map
        (Char.ofNat (((a.toNat % 8 * 64 + payload b) * 64 + payload c) * 64 + payload d) :: ·) := by
  have hd : (Opening.ofFirst index a).due = 3 := by simp [Opening.ofFirst, hw]
  rw [chars_first (by omega), chars_more hb (by omega), chars_more hc (by simp [hd]),
    chars_last he (by simp [hd])]
  simp [Opening.ofFirst, hw]

end Steps

/-! ## Bytes by their numbers -/

theorem width_eq (b : UInt8) : width b =
    if b.toNat ≤ 127 then 1
    else if 194 ≤ b.toNat ∧ b.toNat ≤ 223 then 2
    else if 224 ≤ b.toNat ∧ b.toNat ≤ 239 then 3
    else if 240 ≤ b.toNat ∧ b.toNat ≤ 244 then 4
    else 0 := by
  simp [width, UInt8.le_iff_toNat_le]

theorem isContinuation_iff (b : UInt8) :
    isContinuation b = true ↔ 128 ≤ b.toNat ∧ b.toNat ≤ 191 := by
  simp [isContinuation, UInt8.le_iff_toNat_le]

theorem isSecond_iff (a b : UInt8) : isSecond a b = true ↔
    (if a.toNat = 224 then 160 else if a.toNat = 240 then 144 else 128) ≤ b.toNat ∧
      b.toNat ≤ (if a.toNat = 237 then 159 else if a.toNat = 244 then 143 else 191) := by
  simp only [isSecond, UInt8.le_iff_toNat_le, ← UInt8.toNat_inj, Bool.and_eq_true,
    decide_eq_true_eq, apply_ite UInt8.toNat, UInt8.reduceToNat]

/-- A continuation byte by the six bits it carries. -/
theorem toNat_continuation (n : Nat) : (UInt8.ofNat (n % 64 + 128)).toNat = n % 64 + 128 := by
  rw [UInt8.toNat_ofNat']
  omega

theorem isContinuation_ofNat (n : Nat) : isContinuation (UInt8.ofNat (n % 64 + 128)) = true := by
  rw [isContinuation_iff, toNat_continuation]
  omega

theorem payload_ofNat (n : Nat) : payload (UInt8.ofNat (n % 64 + 128)) = n % 64 := by
  rw [payload, toNat_continuation]
  omega

/-! ## Characters -/

/-- The code points of characters: surrogates are left out. -/
theorem val_range (c : Char) :
    c.val.toNat < 55296 ∨ 57343 < c.val.toNat ∧ c.val.toNat < 1114112 := c.valid

theorem ofNat_val (c : Char) : Char.ofNat c.val.toNat = c := Char.ofNat_toNat c

/-- The reader takes the bytes of one character off. The first two bytes have
ranges of their own, by which no other code point is written in them. -/
theorem chars_encodeChar (c : Char) (index : Nat) (rest : List UInt8) :
    ∃ next, chars none index (String.utf8EncodeChar c ++ rest) =
      (chars none next rest).map (c :: ·) := by
  have hc := val_range c
  have hback := ofNat_val c
  simp only [String.utf8EncodeChar]
  generalize c.val.toNat = v at hc hback
  by_cases h₁ : v ≤ 127
  · have ha : (UInt8.ofNat v).toNat = v := by rw [UInt8.toNat_ofNat']; omega
    have hw : width (UInt8.ofNat v) = 1 := by rw [width_eq, ha, if_pos h₁]
    refine ⟨index + 1, ?_⟩
    rw [if_pos h₁, List.cons_append, List.nil_append, chars_one hw, ha, hback]
  by_cases h₂ : v ≤ 2047
  · have ha : (UInt8.ofNat (v / 64 % 32 + 192)).toNat = v / 64 + 192 := by
      rw [UInt8.toNat_ofNat']; omega
    have hw : width (UInt8.ofNat (v / 64 % 32 + 192)) = 2 := by
      rw [width_eq, ha]; grind
    have hs : isSecond (UInt8.ofNat (v / 64 % 32 + 192)) (UInt8.ofNat (v % 64 + 128)) = true := by
      rw [isSecond_iff, ha, toNat_continuation]; grind
    have hv : (v / 64 + 192) % 32 * 64 + v % 64 = v := by omega
    refine ⟨index + 1 + 1, ?_⟩
    rw [if_neg h₁, if_pos h₂]
    simp only [List.cons_append, List.nil_append]
    rw [chars_two hw hs, ha, payload_ofNat, hv, hback]
  by_cases h₃ : v ≤ 65535
  · have ha : (UInt8.ofNat (v / 4096 % 16 + 224)).toNat = v / 4096 + 224 := by
      rw [UInt8.toNat_ofNat']; omega
    have hw : width (UInt8.ofNat (v / 4096 % 16 + 224)) = 3 := by
      rw [width_eq, ha]; grind
    have hs : isSecond (UInt8.ofNat (v / 4096 % 16 + 224)) (UInt8.ofNat (v / 64 % 64 + 128)) =
        true := by
      rw [isSecond_iff, ha, toNat_continuation]; grind
    have hv : ((v / 4096 + 224) % 16 * 64 + v / 64 % 64) * 64 + v % 64 = v := by omega
    refine ⟨index + 1 + 1 + 1, ?_⟩
    rw [if_neg h₁, if_neg h₂, if_pos h₃]
    simp only [List.cons_append, List.nil_append]
    rw [chars_three hw hs (isContinuation_ofNat _), ha, payload_ofNat, payload_ofNat, hv, hback]
  · have ha : (UInt8.ofNat (v / 262144 % 8 + 240)).toNat = v / 262144 + 240 := by
      rw [UInt8.toNat_ofNat']; omega
    have hw : width (UInt8.ofNat (v / 262144 % 8 + 240)) = 4 := by
      rw [width_eq, ha]; grind
    have hs : isSecond (UInt8.ofNat (v / 262144 % 8 + 240)) (UInt8.ofNat (v / 4096 % 64 + 128)) =
        true := by
      rw [isSecond_iff, ha, toNat_continuation]; grind
    have hv : (((v / 262144 + 240) % 8 * 64 + v / 4096 % 64) * 64 + v / 64 % 64) * 64 + v % 64 =
        v := by omega
    refine ⟨index + 1 + 1 + 1 + 1, ?_⟩
    rw [if_neg h₁, if_neg h₂, if_neg h₃]
    simp only [List.cons_append, List.nil_append]
    rw [chars_four hw hs (isContinuation_ofNat _) (isContinuation_ofNat _), ha, payload_ofNat,
      payload_ofNat, payload_ofNat, hv, hback]

/-! ## Texts -/

theorem chars_flatMap (cs : List Char) (index : Nat) :
    chars none index (cs.flatMap String.utf8EncodeChar) = .ok cs := by
  induction cs generalizing index with
  | nil => rfl
  | cons c rest ih =>
    obtain ⟨next, h⟩ := chars_encodeChar c index (rest.flatMap String.utf8EncodeChar)
    rw [List.flatMap_cons, h, ih]
    rfl

/-- Reading the bytes of a text gives it back. -/
theorem decode_encode (s : String) : decode (encode s) = .ok s := by
  rw [decode, encode_eq, chars_flatMap, Except.map, String.ofList_toList]

end LifecycleLog.Utf8
