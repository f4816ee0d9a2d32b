import OriginCache.Request.Envelopes

/-! The two encodings of a listing's keys, each read back by its own decoder. -/

namespace OriginCache.Request.Encodings
open Foundation.Markup Foundation.Percent Listing Envelopes
open Cache.SegName (Text)

/-- What XML gives a meaning to. -/
def special : Text := ['&', '<', '>', '"', '\'']

/-- The bytes that stand for themselves once a plus is a space. -/
def keeps (b : UInt8) : Bool :=
  (0x41 ≤ b ∧ b ≤ 0x5A) ∨ (0x61 ≤ b ∧ b ≤ 0x7A) ∨ (0x30 ≤ b ∧ b ≤ 0x39) ∨ b = 0x2D ∨ b = 0x5F ∨
    b = 0x2E ∨ b = 0x2F ∨ b = 0x20

theorem keeps_plain : Plain keeps := by
  have each : ∀ n, n < 256 → keeps (UInt8.ofNat n) = true → UInt8.ofNat n < 0x80 ∧ UInt8.ofNat n ≠ 0x25 := by
    decide +kernel
  intro b kept
  have here := each b.toNat b.toNat_lt
  rw [UInt8.ofNat_toNat] at here
  exact here kept

/-- Over one byte: a space instead of the plus, and nothing special. -/
theorem awsUrlEncodeByte_spec (b : UInt8) :
    (awsUrlEncodeByte b).map (fun c => if c = '+' then ' ' else c) = encodeByte keeps b ∧
      ∀ c ∈ awsUrlEncodeByte b, c ∉ special := by
  have each : ∀ high, high < 16 → ∀ low, low < 16 →
      (awsUrlEncodeByte (UInt8.ofNat (16 * high + low))).map (fun c => if c = '+' then ' ' else c) =
          encodeByte keeps (UInt8.ofNat (16 * high + low)) ∧
        (awsUrlEncodeByte (UInt8.ofNat (16 * high + low))).all (fun c => decide (c ∉ special)) = true := by
    decide +kernel
  have bound := b.toNat_lt
  have here := each (b.toNat / 16) (by omega) (b.toNat % 16) (Nat.mod_lt _ (by decide))
  rw [Nat.div_add_mod, UInt8.ofNat_toNat] at here
  exact ⟨here.1, fun c member => of_decide_eq_true (List.all_eq_true.mp here.2 c member)⟩

theorem map_awsUrlEncode (s : Text) :
    (awsUrlEncode s).map (fun c => if c = '+' then ' ' else c) = encode keeps s := by
  unfold awsUrlEncode encode encodeBytes
  rw [List.map_flatMap]
  congr 1
  funext b
  exact (awsUrlEncodeByte_spec b).1

theorem formDecodePart_awsUrlEncode (s : Text) : formDecodePart (awsUrlEncode s) = s := by
  rw [formDecodePart, map_awsUrlEncode]
  exact lossy.decode_encode keeps keeps_plain s

theorem unescape_xmlEscape (s : Text) : unescape (xmlEscape s) = s := by
  induction s with
  | nil => rfl
  | cons c s ih =>
    have split : xmlEscape (c :: s) = xmlEscapeChar c ++ xmlEscape s := List.flatMap_cons
    rw [split]
    unfold xmlEscapeChar
    split_ifs with amp lt gt quote apos
    · subst amp
      exact congrArg ('&' :: ·) ih
    · subst lt
      exact congrArg ('<' :: ·) ih
    · subst gt
      exact congrArg ('>' :: ·) ih
    · subst quote
      exact congrArg ('"' :: ·) ih
    · subst apos
      exact congrArg ('\'' :: ·) ih
    · rw [List.singleton_append, unescape_plain c _ amp, ih]

/-- Every key can be recovered from a listing, in either mode, and adds no markup to it. -/
theorem encodings_invert (s : Text) :
    (formDecodePart (awsUrlEncode s) = s ∧ ∀ c ∈ awsUrlEncode s, c ∉ special) ∧
      unescape (xmlEscape s) = s ∧ '<' ∉ xmlEscape s ∧ '>' ∉ xmlEscape s ∧ Referenced (xmlEscape s) := by
  have inert := inert_xmlEscape s
  have brackets := (angles_eq_nil_iff (xmlEscape s)).mp inert.angles
  refine ⟨⟨formDecodePart_awsUrlEncode s, ?_⟩, unescape_xmlEscape s, brackets.1, brackets.2, inert.referenced⟩
  intro c member
  obtain ⟨b, -, written⟩ := List.mem_flatMap.mp member
  exact (awsUrlEncodeByte_spec b).2 c written

end OriginCache.Request.Encodings
