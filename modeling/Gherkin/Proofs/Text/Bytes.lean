import Gherkin.Text.Bytes

/-!
Contract: text comes back from its bytes.

Owns: what the bytes of a character are taken for, one after the other, and that decoding
undoes the encoding of any text.
Does not own: bytes that no text is encoded as.
Main statement: `decodeBytes_toUTF8`.

A character has one to four bytes. The first one tells how many follow, and the bounds of
the second one keep out what is no character; so the cases are those of the encoding.
-/

set_option autoImplicit false

namespace Gherkin.Text

/-! ## First bytes -/

theorem beginByte_one {n : Nat} (bound : n < 0x80) :
    beginByte (UInt8.ofNat n) = ([Char.ofNat n], none) := by
  have all : ∀ n < 0x80, beginByte (UInt8.ofNat n) = ([Char.ofNat n], none) := by decide
  exact all n bound

theorem beginByte_two {n : Nat} (least : 2 ≤ n) (bound : n < 0x20) :
    beginByte (UInt8.ofNat (n + 0xc0)) = ([], some ⟨n, 0x80, 0xbf, 0⟩) := by
  have all : ∀ n < 0x20, 2 ≤ n →
      beginByte (UInt8.ofNat (n + 0xc0)) = ([], some ⟨n, 0x80, 0xbf, 0⟩) := by decide
  exact all n bound least

theorem beginByte_three {n : Nat} (bound : n < 0x10) :
    beginByte (UInt8.ofNat (n + 0xe0)) =
      ([], some ⟨n, if n = 0 then 0xa0 else 0x80, if n = 13 then 0x9f else 0xbf, 1⟩) := by
  have all : ∀ n < 0x10, beginByte (UInt8.ofNat (n + 0xe0)) =
      ([], some ⟨n, if n = 0 then 0xa0 else 0x80, if n = 13 then 0x9f else 0xbf, 1⟩) := by decide
  exact all n bound

theorem beginByte_four {n : Nat} (bound : n < 5) :
    beginByte (UInt8.ofNat (n + 0xf0)) =
      ([], some ⟨n, if n = 0 then 0x90 else 0x80, if n = 4 then 0x8f else 0xbf, 2⟩) := by
  have all : ∀ n < 5, beginByte (UInt8.ofNat (n + 0xf0)) =
      ([], some ⟨n, if n = 0 then 0x90 else 0x80, if n = 4 then 0x8f else 0xbf, 2⟩) := by decide
  exact all n bound

/-! ## Further bytes -/

/-- A byte within the bounds goes on with the character. -/
theorem within_bounds
    {n : Nat} {low high : UInt8} (bound : n < 0x40) (lower : low.toNat ≤ n + 0x80)
    (upper : n + 0x80 ≤ high.toNat) :
    (low ≤ UInt8.ofNat (n + 0x80) ∧ UInt8.ofNat (n + 0x80) ≤ high) ∧
      (UInt8.ofNat (n + 0x80)).toNat - 0x80 = n := by
  have value : (UInt8.ofNat (n + 0x80)).toNat = n + 0x80 := by
    rw [UInt8.toNat_ofNat']
    omega
  rw [UInt8.le_iff_toNat_le, UInt8.le_iff_toNat_le, value]
  exact ⟨⟨lower, upper⟩, Nat.add_sub_cancel n 0x80⟩

theorem continueByte_last (bits : Nat) {n : Nat} (bound : n < 0x40) :
    continueByte ⟨bits, 0x80, 0xbf, 0⟩ (UInt8.ofNat (n + 0x80)) =
      ([Char.ofNat (bits * 64 + n)], none) := by
  have lower : (0x80 : UInt8).toNat ≤ n + 0x80 := Nat.le_add_left 0x80 n
  have upper : n + 0x80 ≤ (0xbf : UInt8).toNat := Nat.add_le_add_right (Nat.le_of_lt_succ bound) _
  obtain ⟨within, value⟩ := within_bounds bound lower upper
  simp only [continueByte, if_pos within, value]

theorem continueByte_further
    (bits further : Nat) {n : Nat} {low high : UInt8} (bound : n < 0x40)
    (lower : low.toNat ≤ n + 0x80) (upper : n + 0x80 ≤ high.toNat) :
    continueByte ⟨bits, low, high, further + 1⟩ (UInt8.ofNat (n + 0x80)) =
      ([], some ⟨bits * 64 + n, 0x80, 0xbf, further⟩) := by
  obtain ⟨within, value⟩ := within_bounds bound lower upper
  simp only [continueByte, if_pos within, value]

/-! ## Texts -/

/-- The bytes of a character are decoded to it, whatever follows. -/
theorem decodeFrom_utf8EncodeChar (c : Char) (bs : List UInt8) :
    decodeFrom none (String.utf8EncodeChar c ++ bs) = c :: decodeFrom none bs := by
  have valid := c.valid
  simp only [UInt32.isValidChar, Nat.isValidChar] at valid
  have finish {n : Nat} (same : n = c.val.toNat) : Char.ofNat n = c := by
    rw [same]
    exact Char.ofNat_toNat c
  simp only [String.utf8EncodeChar]
  generalize c.val.toNat = v at valid finish
  split
  · next one =>
      have first := @beginByte_one v (by omega)
      simp only [List.cons_append, List.nil_append, decodeFrom, first, finish rfl]
  · next notOne =>
      split
      · next two =>
          have first := @beginByte_two (v / 64 % 32) (by omega) (by omega)
          have last := @continueByte_last (v / 64 % 32) (v % 64) (by omega)
          have whole : v / 64 % 32 * 64 + v % 64 = v := by omega
          simp only [List.cons_append, List.nil_append, decodeFrom, first, last, finish whole]
      · next notTwo =>
          split
          · next three =>
              generalize isLead : v / 4096 % 16 = lead
              have first := @beginByte_three lead (by omega)
              -- The lead and the bounds of the second byte exclude each other's gaps.
              have second := @continueByte_further lead 0 (v / 64 % 64)
                (if lead = 0 then 0xa0 else 0x80) (if lead = 13 then 0x9f else 0xbf) (by omega)
                (by split <;> simp; omega) (by split <;> simp <;> omega)
              have last := @continueByte_last (lead * 64 + v / 64 % 64) (v % 64) (by omega)
              have whole : (lead * 64 + v / 64 % 64) * 64 + v % 64 = v := by omega
              simp only [List.cons_append, List.nil_append, decodeFrom, first, second, last,
                finish whole]
          · next four =>
              generalize isLead : v / 262144 % 8 = lead
              have first := @beginByte_four lead (by omega)
              have second := @continueByte_further lead 1 (v / 4096 % 64)
                (if lead = 0 then 0x90 else 0x80) (if lead = 4 then 0x8f else 0xbf) (by omega)
                (by split <;> simp; omega) (by split <;> simp <;> omega)
              have third := @continueByte_further (lead * 64 + v / 4096 % 64) 0 (v / 64 % 64)
                0x80 0xbf (by omega) (by simp) (by simp; omega)
              have last := @continueByte_last
                ((lead * 64 + v / 4096 % 64) * 64 + v / 64 % 64) (v % 64) (by omega)
              have whole : ((lead * 64 + v / 4096 % 64) * 64 + v / 64 % 64) * 64 + v % 64 = v := by
                omega
              simp only [List.cons_append, List.nil_append, decodeFrom, first, second, third,
                last, finish whole]

theorem toList_eq_data (bytes : ByteArray) : bytes.toList = bytes.data.toList := by
  have loop (i : Nat) (taken : List UInt8) :
      ByteArray.toList.loop bytes i taken = taken.reverse ++ bytes.data.toList.drop i := by
    fun_induction ByteArray.toList.loop bytes i taken with
    | case1 i taken inside inductionHypothesis =>
        have inBytes : i < bytes.data.toList.length := by simpa using inside
        have byte : bytes.get! i = bytes.data.toList[i] := by
          show bytes.data[i]! = _
          rw [getElem!_pos bytes.data i (by simpa using inBytes), Array.getElem_toList]
        rw [inductionHypothesis, byte, List.drop_eq_getElem_cons inBytes]
        simp
    | case2 i taken outside =>
        rw [List.drop_eq_nil_of_le (by simpa using Nat.le_of_not_lt outside)]
        simp
  exact loop 0 []

/-- The bytes of a text are those of its characters, one after the other. -/
theorem toList_toUTF8 (s : String) :
    s.toUTF8.toList = s.toList.flatMap String.utf8EncodeChar := by
  rw [String.toUTF8_eq_toByteArray, ← String.utf8Encode_toList, toList_eq_data]
  exact List.toList_data_toByteArray

theorem decodeBytes_toUTF8 (s : String) : decodeBytes s.toUTF8.toList = s := by
  have decoded (cs : List Char) : decodeFrom none (cs.flatMap String.utf8EncodeChar) = cs := by
    induction cs with
    | nil => rfl
    | cons c cs inductionHypothesis =>
        rw [List.flatMap_cons, decodeFrom_utf8EncodeChar, inductionHypothesis]
  rw [decodeBytes, toList_toUTF8, decoded, String.ofList_toList]

end Gherkin.Text
