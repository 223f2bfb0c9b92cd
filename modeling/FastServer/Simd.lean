import FastServer.Basic

namespace FastServer.Optimize

/-- The architecture the package is built for. It decides which of `comparePathAVX2` and
`comparePathNEON` is assembly and which is the Go stub `a == b`. -/
inductive Arch
  | amd64
  | arm64
  | other
  deriving DecidableEq, Repr

/-- The lanes of a vector register read as one number, lane 0 lowest: `value b` for each lane,
`base` per lane. -/
def lanes (value : UInt8 → Nat) (base : Nat) : Bytes → Nat
  | [] => 0
  | b :: bs => value b + base * lanes value base bs

/-- `VPCMPEQB` and `VCMEQ` on byte lanes: `0xFF` in each lane where the vectors agree, `0`
elsewhere. -/
def cmpeq (x y : Bytes) : Bytes := List.zipWith (fun p q => if p = q then 0xFF else 0) x y

/-- `VPMOVMSKB`: the top bit of each lane, lane 0 lowest. -/
def vpmovmskb (v : Bytes) : Nat := lanes (fun b => b.toNat / 128) 2 v

/-- `VMOV V.D[i], R`: the 64-bit lane `i` of a vector, its byte 0 lowest. -/
def laneD (v : Bytes) (i : Nat) : Nat := lanes (fun b => b.toNat) 256 ((v.drop (8 * i)).take 8)

/-- `remainder_loop` of both routines: byte by byte, to `not_equal` at the first difference. -/
def remainderLoop : Bytes → Bytes → Bool
  | [], _ => true
  | x :: a, y :: b => if x = y then remainderLoop a b else false
  | _ :: _, [] => false

/-- `loop32` of `comparePathAVX2` over the bytes left at `SI` and `DI`, then `remainder`. -/
def loop32 (a b : Bytes) : Bool :=
  if a.length < 32 then remainderLoop a b
  else if vpmovmskb (cmpeq (a.take 32) (b.take 32)) ≠ 0xFFFFFFFF then false
  else loop32 (a.drop 32) (b.drop 32)
termination_by a.length
decreasing_by simp only [List.length_drop]; omega

/-- The amd64 assembly of `comparePathAVX2`. -/
def comparePathAVX2Asm (a b : Bytes) : Bool := if a.length = 0 then true else loop32 a b

/-- `loop16` of `comparePathNEON`, then `remainder`: the two 64-bit lanes of the compare are
ANDed and checked against all ones. -/
def loop16 (a b : Bytes) : Bool :=
  if a.length < 16 then remainderLoop a b
  else if (laneD (cmpeq (a.take 16) (b.take 16)) 0 &&& laneD (cmpeq (a.take 16) (b.take 16)) 1) ≠ 2 ^ 64 - 1 then
    false
  else loop16 (a.drop 16) (b.drop 16)
termination_by a.length
decreasing_by simp only [List.length_drop]; omega

/-- The arm64 assembly of `comparePathNEON`. -/
def comparePathNEONAsm (a b : Bytes) : Bool := if a.length = 0 then true else loop16 a b

/-- `comparePathAVX2`: assembly on amd64, the stub `a == b` elsewhere. -/
def comparePathAVX2 : Arch → Bytes → Bytes → Bool
  | .amd64 => comparePathAVX2Asm
  | _ => fun a b => a == b

/-- `comparePathNEON`: assembly on arm64, the stub `a == b` elsewhere. -/
def comparePathNEON : Arch → Bytes → Bytes → Bool
  | .arm64 => comparePathNEONAsm
  | _ => fun a b => a == b

/-- `ComparePathSIMD`, for the flags `init` sets from the CPU. -/
def comparePathSIMD (arch : Arch) (useNEON useAVX2 : Bool) (a b : Bytes) : Bool :=
  if a.length ≠ b.length then false
  else if a.length < 16 then a == b
  else if useNEON then comparePathNEON arch a b
  else if useAVX2 then comparePathAVX2 arch a b
  else a == b

section Lanes

variable {value : UInt8 → Nat} {base : Nat}

theorem lanes_lt (hv : ∀ b, value b < base) (l : Bytes) : lanes value base l < base ^ l.length := by
  induction l with
  | nil => simp [lanes]
  | cons b bs ih =>
      have := hv b
      calc value b + base * lanes value base bs < base * (lanes value base bs + 1) := by
            rw [Nat.mul_succ]; omega
        _ ≤ base * base ^ bs.length := Nat.mul_le_mul_left _ ih
        _ = base ^ (b :: bs).length := by rw [List.length_cons, Nat.pow_succ, Nat.mul_comm]

theorem lanes_all_ones (hbase : 0 < base) {l : Bytes} (hl : ∀ b ∈ l, value b = base - 1) :
    lanes value base l = base ^ l.length - 1 := by
  induction l with
  | nil => rfl
  | cons b bs ih =>
      rw [lanes, hl b (List.mem_cons_self b bs), ih (fun x hx => hl x (List.mem_cons_of_mem b hx)),
        List.length_cons, Nat.pow_succ, Nat.mul_sub_one, Nat.mul_comm (base ^ bs.length)]
      have : base ≤ base * base ^ bs.length := Nat.le_mul_of_pos_right _ (Nat.pos_pow_of_pos _ hbase)
      omega

theorem lanes_lt_all_ones (hv : ∀ b, value b < base) {l : Bytes} (hl : ∃ b ∈ l, value b < base - 1) :
    lanes value base l < base ^ l.length - 1 := by
  induction l with
  | nil => simp at hl
  | cons b bs ih =>
      obtain ⟨c, hc, hcv⟩ := hl
      have hlt := lanes_lt hv bs
      have hb := hv b
      rw [lanes, List.length_cons, Nat.pow_succ, Nat.mul_comm (base ^ bs.length)]
      rcases List.mem_cons.mp hc with rfl | hmem
      · have hle : base * lanes value base bs ≤ base * (base ^ bs.length - 1) := Nat.mul_le_mul_left _ (by omega)
        have hge : base * 1 ≤ base * base ^ bs.length := Nat.mul_le_mul_left _ (by omega)
        rw [Nat.mul_sub_one] at hle
        omega
      · have hrest := ih ⟨c, hmem, hcv⟩
        have hle : base * lanes value base bs ≤ base * (base ^ bs.length - 2) := Nat.mul_le_mul_left _ (by omega)
        have hge : base * 2 ≤ base * base ^ bs.length := Nat.mul_le_mul_left _ (by omega)
        rw [Nat.mul_sub] at hle
        omega

end Lanes

section Blocks

theorem length_cmpeq (x y : Bytes) : (cmpeq x y).length = min x.length y.length := List.length_zipWith _ _ _

theorem cmpeq_self (x : Bytes) : ∀ b ∈ cmpeq x x, b = 0xFF := by
  induction x with
  | nil => simp [cmpeq]
  | cons a x ih =>
      intro b hb
      simp only [cmpeq, List.zipWith_cons_cons, if_pos rfl, List.mem_cons] at hb
      exact hb.elim id (ih b)

theorem cmpeq_of_ne {x y : Bytes} (hlen : x.length = y.length) (hne : x ≠ y) : ∃ b ∈ cmpeq x y, b = 0 := by
  induction x generalizing y with
  | nil => cases y with
    | nil => exact absurd rfl hne
    | cons _ _ => simp at hlen
  | cons a x ih =>
      cases y with
      | nil => simp at hlen
      | cons c y =>
          by_cases hac : a = c
          · subst hac
            obtain ⟨b, hb, hb0⟩ := ih (by simpa using hlen) (fun h => hne (h ▸ rfl))
            exact ⟨b, by simp only [cmpeq, List.zipWith_cons_cons]; exact List.mem_cons_of_mem _ hb, hb0⟩
          · exact ⟨0, by simp [cmpeq, hac], rfl⟩

theorem vpmovmskb_cmpeq {x y : Bytes} (hx : x.length = 32) (hy : y.length = 32) :
    vpmovmskb (cmpeq x y) = 0xFFFFFFFF ↔ x = y := by
  have hv : ∀ b : UInt8, b.toNat / 128 < 2 := fun b => by have := b.toNat_lt_size; unfold UInt8.size at this; omega
  have hlen : (cmpeq x y).length = 32 := by rw [length_cmpeq, hx, hy]; rfl
  constructor
  · intro h
    by_contra hne
    obtain ⟨b, hb, rfl⟩ := cmpeq_of_ne (hx.trans hy.symm) hne
    have := lanes_lt_all_ones hv ⟨0, hb, by decide⟩
    rw [hlen] at this
    exact absurd h (by unfold vpmovmskb; omega)
  · rintro rfl
    have hall : lanes (fun b => b.toNat / 128) 2 (cmpeq x x) = 2 ^ (cmpeq x x).length - 1 :=
      lanes_all_ones (by decide) (fun b hb => by rw [cmpeq_self x b hb]; rfl)
    unfold vpmovmskb
    rw [hall, hlen]
    rfl

theorem laneD_and_cmpeq {x y : Bytes} (hx : x.length = 16) (hy : y.length = 16) :
    (laneD (cmpeq x y) 0 &&& laneD (cmpeq x y) 1) = 2 ^ 64 - 1 ↔ x = y := by
  have hv : ∀ b : UInt8, b.toNat < 256 := fun b => b.toNat_lt_size
  have hlen : (cmpeq x y).length = 16 := by rw [length_cmpeq, hx, hy]; rfl
  have hhalf : ∀ i < 2, (((cmpeq x y).drop (8 * i)).take 8).length = 8 := by
    intro i hi
    simp only [List.length_take, List.length_drop, hlen]
    omega
  constructor
  · intro h
    by_contra hne
    obtain ⟨b, hb, rfl⟩ := cmpeq_of_ne (hx.trans hy.symm) hne
    have hsplit : cmpeq x y = ((cmpeq x y).drop (8 * 0)).take 8 ++ ((cmpeq x y).drop (8 * 1)).take 8 := by
      rw [List.take_of_length_le (by simp [hlen] : ((cmpeq x y).drop (8 * 1)).length ≤ 8)]
      simp
    rw [hsplit] at hb
    rcases List.mem_append.mp hb with hb | hb
    · have : lanes (fun b => b.toNat) 256 (((cmpeq x y).drop (8 * 0)).take 8) < 256 ^ _ - 1 :=
        lanes_lt_all_ones hv ⟨0, hb, by decide⟩
      rw [hhalf 0 (by decide)] at this
      have : (laneD (cmpeq x y) 0 &&& laneD (cmpeq x y) 1) ≤ laneD (cmpeq x y) 0 := Nat.and_le_left
      unfold laneD at *
      omega
    · have : lanes (fun b => b.toNat) 256 (((cmpeq x y).drop (8 * 1)).take 8) < 256 ^ _ - 1 :=
        lanes_lt_all_ones hv ⟨0, hb, by decide⟩
      rw [hhalf 1 (by decide)] at this
      have : (laneD (cmpeq x y) 0 &&& laneD (cmpeq x y) 1) ≤ laneD (cmpeq x y) 1 := Nat.and_le_right
      unfold laneD at *
      omega
  · rintro rfl
    have hall : ∀ i < 2, laneD (cmpeq x x) i = 2 ^ 64 - 1 := by
      intro i hi
      unfold laneD
      rw [lanes_all_ones (by decide) (fun b hb => by
        rw [cmpeq_self x b (List.mem_of_mem_drop (List.mem_of_mem_take hb))]; rfl)]
      rw [hhalf i hi]
      rfl
    rw [hall 0 (by decide), hall 1 (by decide), Nat.and_self]

end Blocks

section Loops

theorem remainderLoop_iff {a b : Bytes} (h : a.length = b.length) : remainderLoop a b = true ↔ a = b := by
  induction a, b using remainderLoop.induct with
  | case1 x =>
      obtain rfl : x = [] := List.eq_nil_of_length_eq_zero h.symm
      simp [remainderLoop]
  | case2 a y b ih => simp [remainderLoop, ih (by simpa using h)]
  | case3 x a y b hxy => simp [remainderLoop, hxy]
  | case4 _ _ => simp at h

theorem length_take_block {a : Bytes} {n : Nat} (h : ¬ a.length < n) : (a.take n).length = n := by
  simp only [List.length_take]; omega

/-- `loop32` and its remainder decide equality of two strings of one length. -/
theorem loop32_iff {a b : Bytes} (h : a.length = b.length) : loop32 a b = true ↔ a = b := by
  induction a, b using loop32.induct with
  | case1 a b h32 => rw [loop32, if_pos h32]; exact remainderLoop_iff h
  | case2 a b h32 hblk =>
      rw [loop32, if_neg h32, if_pos hblk]
      simp only [Bool.false_eq_true, false_iff]
      rintro rfl
      exact hblk ((vpmovmskb_cmpeq (length_take_block h32) (length_take_block h32)).mpr rfl)
  | case3 a b h32 hblk ih =>
      have htake : a.take 32 = b.take 32 :=
        (vpmovmskb_cmpeq (length_take_block h32) (length_take_block (h ▸ h32))).mp (not_not.mp hblk)
      rw [loop32, if_neg h32, if_neg hblk, ih (by simp [h])]
      constructor
      · intro hd; rw [← List.take_append_drop 32 a, ← List.take_append_drop 32 b, htake, hd]
      · rintro rfl; rfl

/-- `loop16` and its remainder decide equality of two strings of one length. -/
theorem loop16_iff {a b : Bytes} (h : a.length = b.length) : loop16 a b = true ↔ a = b := by
  induction a, b using loop16.induct with
  | case1 a b h16 => rw [loop16, if_pos h16]; exact remainderLoop_iff h
  | case2 a b h16 hblk =>
      rw [loop16, if_neg h16, if_pos hblk]
      simp only [Bool.false_eq_true, false_iff]
      rintro rfl
      exact hblk ((laneD_and_cmpeq (length_take_block h16) (length_take_block h16)).mpr rfl)
  | case3 a b h16 hblk ih =>
      have htake : a.take 16 = b.take 16 :=
        (laneD_and_cmpeq (length_take_block h16) (length_take_block (h ▸ h16))).mp (not_not.mp hblk)
      rw [loop16, if_neg h16, if_neg hblk, ih (by simp [h])]
      constructor
      · intro hd; rw [← List.take_append_drop 16 a, ← List.take_append_drop 16 b, htake, hd]
      · rintro rfl; rfl

theorem comparePathAVX2Asm_eq {a b : Bytes} (h : a.length = b.length) : comparePathAVX2Asm a b = (a == b) := by
  rw [Bool.eq_iff_iff, beq_iff_eq, comparePathAVX2Asm]
  split_ifs with h0
  · obtain rfl := List.eq_nil_of_length_eq_zero h0
    obtain rfl := List.eq_nil_of_length_eq_zero (h ▸ h0)
    simp
  · exact loop32_iff h

theorem comparePathNEONAsm_eq {a b : Bytes} (h : a.length = b.length) : comparePathNEONAsm a b = (a == b) := by
  rw [Bool.eq_iff_iff, beq_iff_eq, comparePathNEONAsm]
  split_ifs with h0
  · obtain rfl := List.eq_nil_of_length_eq_zero h0
    obtain rfl := List.eq_nil_of_length_eq_zero (h ▸ h0)
    simp
  · exact loop16_iff h

/-- `ComparePathSIMD` is string equality, on every architecture and for every setting of the CPU
flags: the AVX2 routine with its 32-byte blocks and the NEON routine with its 16-byte blocks
agree with `a == b` wherever the strings first differ. -/
theorem comparePathSIMD_eq_beq (arch : Arch) (useNEON useAVX2 : Bool) (a b : Bytes) :
    comparePathSIMD arch useNEON useAVX2 a b = (a == b) := by
  unfold comparePathSIMD
  split_ifs with hlen _ hneon havx
  · exact (beq_eq_false_iff_ne.mpr fun hab => hlen (congrArg List.length hab)).symm
  · rfl
  · cases arch
    exacts [rfl, comparePathNEONAsm_eq (not_not.mp hlen), rfl]
  · cases arch
    exacts [comparePathAVX2Asm_eq (not_not.mp hlen), rfl, rfl]
  · rfl

end Loops

end FastServer.Optimize
