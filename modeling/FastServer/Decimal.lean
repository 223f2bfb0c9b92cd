import FastServer.Core
import Mathlib.Data.Nat.Digits

namespace FastServer.Core

open Response

/-- The digit loop of `appendInt` of package core, `for i > 0 { digits[n] = byte('0' + i%10);
i /= 10; n++ }`: `digits[0..n)`, last digit first; `fuel` bounds its iterations. -/
def collectDigits : Nat → Nat → Bytes
  | 0, _ => []
  | fuel + 1, i => if 0 < i then digitByte (i % 10) :: collectDigits fuel (i / 10) else []

/-- `appendInt(b, i)` of package core, for an `int` `i`; its second loop,
`for n > 0 { n--; b = append(b, digits[n]) }`, appends `digits[0..n)` in reverse. -/
def appendInt (b : Bytes) (i : Int) : Bytes :=
  if i = 0 then b ++ [digitByte 0]
  else
    let b := if i < 0 then b ++ [minus] else b
    let i := if i < 0 then negInt64 i else i
    b ++ (collectDigits i.toNat i.toNat).reverse

end FastServer.Core

namespace FastServer.Decimal

open Response

/-- `strconv.AppendInt(nil, n, 10)`: a `-` for a negative `n`, then the base-10 digits of `|n|`,
most significant first and with no leading zero, and `0` for zero. -/
def formatInt (n : Int) : Bytes :=
  (if n < 0 then [minus] else []) ++
    if n = 0 then [digitByte 0] else (Nat.digits 10 n.natAbs).reverse.map digitByte

theorem padded_countDigits {fuel n : Nat} (h : n ≤ fuel) :
    padded (countDigits fuel n) n = (Nat.digits 10 n).reverse.map digitByte := by
  induction fuel generalizing n with
  | zero =>
      obtain rfl : n = 0 := by omega
      simp [countDigits, padded]
  | succ fuel ih =>
      rcases Nat.eq_zero_or_pos n with rfl | hn
      · simp [countDigits, padded]
      · rw [countDigits, if_neg hn.ne', padded, ih (by omega), Nat.digits_def' (by decide) hn]
        simp

theorem collectDigits_eq {fuel n : Nat} (h : n ≤ fuel) :
    Core.collectDigits fuel n = (Nat.digits 10 n).map digitByte := by
  induction fuel generalizing n with
  | zero =>
      obtain rfl : n = 0 := by omega
      simp [Core.collectDigits]
  | succ fuel ih =>
      rcases Nat.eq_zero_or_pos n with rfl | hn
      · simp [Core.collectDigits]
      · rw [Core.collectDigits, if_pos hn, ih (by omega), Nat.digits_def' (by decide) hn]
        rfl

theorem fillDigits_countDigits (m : Nat) :
    fillDigits (countDigits m m) m (List.replicate (countDigits m m) (digitByte 0)) =
      (Nat.digits 10 m).reverse.map digitByte := by
  rw [fillDigits_eq _ _ _ (by simp), List.drop_replicate, Nat.sub_self, List.replicate_zero,
    List.append_nil, padded_countDigits le_rfl]

theorem toNat_magnitude {i : Int} (hmin : i ≠ -2 ^ 63) :
    (if i < 0 then negInt64 i else i).toNat = i.natAbs := by
  unfold negInt64
  split_ifs <;> omega

theorem formatInt_of_ne {i : Int} (h0 : i ≠ 0) :
    formatInt i = (if i < 0 then [minus] else []) ++ (Nat.digits 10 i.natAbs).reverse.map digitByte := by
  rw [formatInt, if_neg h0]

theorem http_appendInt_eq (b : Bytes) {i : Int} (hmin : i ≠ -2 ^ 63) :
    Response.appendInt b i = b ++ formatInt i := by
  by_cases h0 : i = 0
  · subst h0; rfl
  · rw [Response.appendInt, if_neg h0, formatInt_of_ne h0]
    dsimp only
    rw [toNat_magnitude hmin, fillDigits_countDigits]
    split_ifs <;> simp

theorem core_appendInt_eq (b : Bytes) {i : Int} (hmin : i ≠ -2 ^ 63) :
    Core.appendInt b i = b ++ formatInt i := by
  by_cases h0 : i = 0
  · subst h0; rfl
  · rw [Core.appendInt, if_neg h0, formatInt_of_ne h0]
    dsimp only
    rw [toNat_magnitude hmin, collectDigits_eq le_rfl, List.map_reverse]
    split_ifs <;> simp

example : Core.appendInt (lit "x") (-120) = lit "x-120" := by decide

theorem appendInt_minInt64 (b : Bytes) :
    Response.appendInt b (-2 ^ 63) = b ++ [minus] ∧ Core.appendInt b (-2 ^ 63) = b ++ [minus] := by
  constructor <;> simp [Response.appendInt, Core.appendInt, negInt64, countDigits, fillDigits, Core.collectDigits]

/-- The two `appendInt`s agree on every `int`: the engine's error responses, modelled with the
one of package http, are the bytes package core writes. -/
theorem core_appendInt_eq_http (b : Bytes) (i : Int) : Core.appendInt b i = Response.appendInt b i := by
  by_cases hmin : i = -2 ^ 63
  · subst hmin; rw [(appendInt_minInt64 b).1, (appendInt_minInt64 b).2]
  · rw [core_appendInt_eq b hmin, http_appendInt_eq b hmin]

theorem formatInt_minInt64 : formatInt (-2 ^ 63) ≠ [minus] := by
  rw [formatInt_of_ne (by decide), if_pos (by decide)]
  simp [Nat.digits_ne_nil_iff_ne_zero]

/-- `appendInt` of package http and of package core write `strconv.AppendInt(b, n, 10)` for every
`int` but `math.MinInt64`, for which both write only `-`. -/
theorem appendInt_wrong_only_at_minInt64 :
    (∀ (b : Bytes) (n : Int), n ≠ -2 ^ 63 →
      Response.appendInt b n = b ++ formatInt n ∧ Core.appendInt b n = b ++ formatInt n) ∧
    ∀ b : Bytes, Response.appendInt b (-2 ^ 63) = b ++ [minus] ∧
      Core.appendInt b (-2 ^ 63) = b ++ [minus] ∧ formatInt (-2 ^ 63) ≠ [minus] :=
  ⟨fun b _ h => ⟨http_appendInt_eq b h, core_appendInt_eq b h⟩,
    fun b => ⟨(appendInt_minInt64 b).1, (appendInt_minInt64 b).2, formatInt_minInt64⟩⟩

end FastServer.Decimal
