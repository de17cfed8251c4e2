import Mathlib.Data.List.Basic
import Mathlib.Data.UInt

/-!
# UTF-8 octet sequences (RFC 3629 §4)

The syntax of one UTF-8 character as its octets, one constructor for each
alternative of the RFC's grammar, and texts made of such characters each of
which meets a side condition (`Utf8Text`): a client asks of every character
that it is not NUL, or that it also lies in the Basic Multilingual Plane
(three octets at most).

An encoder looks at the first octet and the length of a character, and at
whether it is overlong; `Utf8Char.cases` gives a character in those terms,
with the octets as numbers. The rules for texts are `Utf8Text.mono` and the
induction the type provides.
-/

namespace QemuKvm

/-- `UTF8-tail = %x80-BF` -/
def Utf8Tail (b : UInt8) : Prop := 0x80 ≤ b ∧ b ≤ 0xBF

/-- `UTF8-char`: the alternatives of RFC 3629 §4 in its order. -/
inductive Utf8Char : List UInt8 → Prop where
  /-- `UTF8-1 = %x00-7F` -/
  | one {a : UInt8} : a ≤ 0x7F → Utf8Char [a]
  /-- `UTF8-2 = %xC2-DF UTF8-tail` -/
  | two {a b : UInt8} : 0xC2 ≤ a → a ≤ 0xDF → Utf8Tail b → Utf8Char [a, b]
  /-- `UTF8-3 = %xE0 %xA0-BF UTF8-tail` -/
  | e0 {b c : UInt8} : 0xA0 ≤ b → b ≤ 0xBF → Utf8Tail c → Utf8Char [0xE0, b, c]
  /-- `/ %xE1-EC 2( UTF8-tail )` -/
  | e1ec {a b c : UInt8} : 0xE1 ≤ a → a ≤ 0xEC → Utf8Tail b → Utf8Tail c → Utf8Char [a, b, c]
  /-- `/ %xED %x80-9F UTF8-tail` -/
  | ed {b c : UInt8} : 0x80 ≤ b → b ≤ 0x9F → Utf8Tail c → Utf8Char [0xED, b, c]
  /-- `/ %xEE-EF 2( UTF8-tail )` -/
  | eeef {a b c : UInt8} : 0xEE ≤ a → a ≤ 0xEF → Utf8Tail b → Utf8Tail c → Utf8Char [a, b, c]
  /-- `UTF8-4 = %xF0 %x90-BF 2( UTF8-tail )` -/
  | f0 {b c d : UInt8} : 0x90 ≤ b → b ≤ 0xBF → Utf8Tail c → Utf8Tail d → Utf8Char [0xF0, b, c, d]
  /-- `/ %xF1-F3 3( UTF8-tail )` -/
  | f1f3 {a b c d : UInt8} : 0xF1 ≤ a → a ≤ 0xF3 → Utf8Tail b → Utf8Tail c → Utf8Tail d →
      Utf8Char [a, b, c, d]
  /-- `/ %xF4 %x80-8F 2( UTF8-tail )` -/
  | f4 {b c d : UInt8} : 0x80 ≤ b → b ≤ 0x8F → Utf8Tail c → Utf8Tail d → Utf8Char [0xF4, b, c, d]

/-- `UTF8-octets = *( UTF8-char )`, every character meeting `p`. -/
inductive Utf8Text (p : List UInt8 → Prop) : List UInt8 → Prop where
  | nil : Utf8Text p []
  | cons {c rest : List UInt8} : Utf8Char c → p c → Utf8Text p rest → Utf8Text p (c ++ rest)

/-- A tail octet as a number. -/
def TailNat (b : ℕ) : Prop := 0x80 ≤ b ∧ b ≤ 0xBF

/-- A character as an encoder sees it: its length, the range of its first
octet, tails after it, and the condition that it is not overlong. -/
inductive Utf8Shape : List UInt8 → Prop where
  | one {a : UInt8} : a.toNat ≤ 0x7F → Utf8Shape [a]
  | two {a b : UInt8} : 0xC2 ≤ a.toNat → a.toNat ≤ 0xDF → TailNat b.toNat → Utf8Shape [a, b]
  | three {a b c : UInt8} : 0xE0 ≤ a.toNat → a.toNat ≤ 0xEF → TailNat b.toNat → TailNat c.toNat →
      (a.toNat = 0xE0 → 0xA0 ≤ b.toNat) → Utf8Shape [a, b, c]
  | four {a b c d : UInt8} : 0xF0 ≤ a.toNat → a.toNat ≤ 0xF4 → TailNat b.toNat → TailNat c.toNat →
      TailNat d.toNat → (a.toNat = 0xF0 → 0x90 ≤ b.toNat) → Utf8Shape [a, b, c, d]

theorem Utf8Tail.toNat {b : UInt8} (h : Utf8Tail b) : TailNat b.toNat :=
  ⟨UInt8.le_iff_toNat_le.1 h.1, UInt8.le_iff_toNat_le.1 h.2⟩

/-- Every character has the shape an encoder expects of its first octet. -/
theorem Utf8Char.shape {c : List UInt8} (h : Utf8Char c) : Utf8Shape c := by
  -- each alternative of the grammar, with its bounds read as numbers
  cases h with
  | one ha => exact .one (UInt8.le_iff_toNat_le.1 ha)
  | two ha ha' hb =>
    exact .two (UInt8.le_iff_toNat_le.1 ha) (UInt8.le_iff_toNat_le.1 ha') hb.toNat
  | e0 hb hb' hc =>
    exact .three (by decide) (by decide) ⟨by have := UInt8.le_iff_toNat_le.1 hb; simp at this ⊢; omega,
      UInt8.le_iff_toNat_le.1 hb'⟩ hc.toNat fun _ => UInt8.le_iff_toNat_le.1 hb
  | e1ec ha ha' hb hc =>
    have h1 := UInt8.le_iff_toNat_le.1 ha
    have h2 := UInt8.le_iff_toNat_le.1 ha'
    simp only [UInt8.reduceToNat] at h1 h2
    exact .three (by omega) (by omega) hb.toNat hc.toNat fun h => by omega
  | ed hb hb' hc =>
    have h1 := UInt8.le_iff_toNat_le.1 hb
    have h2 := UInt8.le_iff_toNat_le.1 hb'
    simp only [UInt8.reduceToNat] at h1 h2
    exact .three (by decide) (by decide) ⟨h1, by omega⟩ hc.toNat fun h => absurd h (by decide)
  | eeef ha ha' hb hc =>
    have h1 := UInt8.le_iff_toNat_le.1 ha
    have h2 := UInt8.le_iff_toNat_le.1 ha'
    simp only [UInt8.reduceToNat] at h1 h2
    exact .three (by omega) (by omega) hb.toNat hc.toNat fun h => by omega
  | f0 hb hb' hc hd =>
    have h1 := UInt8.le_iff_toNat_le.1 hb
    have h2 := UInt8.le_iff_toNat_le.1 hb'
    simp only [UInt8.reduceToNat] at h1 h2
    exact .four (by decide) (by decide) ⟨by omega, h2⟩ hc.toNat hd.toNat fun _ => h1
  | f1f3 ha ha' hb hc hd =>
    have h1 := UInt8.le_iff_toNat_le.1 ha
    have h2 := UInt8.le_iff_toNat_le.1 ha'
    simp only [UInt8.reduceToNat] at h1 h2
    exact .four (by omega) (by omega) hb.toNat hc.toNat hd.toNat fun h => by omega
  | f4 hb hb' hc hd =>
    have h1 := UInt8.le_iff_toNat_le.1 hb
    have h2 := UInt8.le_iff_toNat_le.1 hb'
    simp only [UInt8.reduceToNat] at h1 h2
    exact .four (by decide) (by decide) ⟨h1, by omega⟩ hc.toNat hd.toNat fun h => absurd h (by decide)

theorem Utf8Char.length_le {c : List UInt8} (h : Utf8Char c) : c.length ≤ 4 := by
  cases h <;> simp

/-- A weaker side condition holds of every text the stronger one holds of. -/
theorem Utf8Text.mono {p q : List UInt8 → Prop} (hpq : ∀ c, Utf8Char c → p c → q c)
    {s : List UInt8} (h : Utf8Text p s) : Utf8Text q s := by
  induction h with
  | nil => exact .nil
  | cons hc hp _ ih => exact .cons hc (hpq _ hc hp) ih

end QemuKvm
