import ReversePolish.Proofs.LiteralRounding

/-!
# The shortest decimal of a magnitude

The decimals that round to a magnitude leave no gap on either side of it. So if one with so many
digits rounds to it, the neighbour with as many digits on the same side does too. The decimal that
is found for a magnitude therefore has the fewest digits of all that round to it, and none of those
with as many digits is nearer.
-/

namespace ReversePolish

attribute [local instance (high)] instPowNat

theorem add_le_of_abs_sub_le {a b q : ℚ} (hab : a < b) (h : |q - b| ≤ |q - a|) : a + b ≤ 2 * q := by
  by_contra hlt
  rw [not_le] at hlt
  rw [abs_of_neg (by linarith : q - b < 0), le_abs] at h
  rcases h with h | h <;> linarith

theorem le_add_of_abs_sub_le {a b q : ℚ} (hab : a < b) (h : |q - a| ≤ |q - b|) : 2 * q ≤ a + b := by
  have hneg := add_le_of_abs_sub_le (q := -q) (neg_lt_neg hab) (by
    rw [← abs_neg, ← abs_neg (-q - -b)]
    convert h using 2 <;> ring)
  linarith

theorem NearestEven.le_of_lt {place : ℕ → ℚ} (hplace : StrictMono place) {q q' : ℚ} {k k' : ℕ}
    (h : NearestEven place q k) (h' : NearestEven place q' k') (hlt : q < q') : k ≤ k' := by
  by_contra hless
  have hplaces := hplace (Nat.not_le.1 hless)
  have hupper := add_le_of_abs_sub_le hplaces (h.nearest k')
  have hlower := le_add_of_abs_sub_le hplaces (h'.nearest k)
  linarith

namespace Decimal

open Binary64

variable {d d' exact found : Decimal} {rank dropped carry count : ℕ}

theorem nearestRank_mono (h : d.value ≤ d'.value) : d.nearestRank ≤ d'.nearestRank := by
  rcases h.lt_or_eq with hlt | heq
  · exact d.nearestRank_nearest.le_of_lt strictMono_magnitude d'.nearestRank_nearest hlt
  · exact (nearestRank_congr heq).le

/-- What lies between two decimals that round alike rounds like them. -/
theorem nearestRank_eq_of_between {low high : Decimal} (hlow : low.nearestRank = rank)
    (hhigh : high.nearestRank = rank) (hfrom : low.value ≤ d.value) (hto : d.value ≤ high.value) :
    d.nearestRank = rank :=
  Nat.le_antisymm ((nearestRank_mono hto).trans_eq hhigh)
    (hlow.symm.trans_le (nearestRank_mono hfrom))

theorem value_ofRank_eq (rank : ℕ) : (ofRank rank).value = magnitude rank :=
  eq_div_of_mul_eq (Nat.cast_ne_zero.2 (Nat.pos_iff_ne_zero.1 unitsOfOne_pos)) (value_ofRank rank)

/-- A decimal with its last digits cut, and so much added to the last digit that is kept. -/
def cut (exact : Decimal) (dropped carry : ℕ) : Decimal :=
  ⟨exact.coefficient / 10 ^ dropped + carry, exact.exponent + dropped⟩

theorem value_cut (exact : Decimal) (dropped carry : ℕ) :
    (exact.cut dropped carry).value =
      ((exact.coefficient / 10 ^ dropped + carry) * 10 ^ dropped : ℕ) * 10 ^ exact.exponent := by
  rw [value, cut, zpow_add₀ (by norm_num), zpow_natCast]
  push_cast
  ring

theorem value_le_value_iff {coefficient coefficient' : ℕ} (exponent : ℤ) :
    (coefficient : ℚ) * 10 ^ exponent ≤ coefficient' * 10 ^ exponent ↔
      coefficient ≤ coefficient' := by
  have hpos : (0 : ℚ) < 10 ^ exponent := zpow_pos (by norm_num) _
  rw [mul_le_mul_iff_left₀ hpos, Nat.cast_le]

theorem cut_le (exact : Decimal) (dropped : ℕ) : (exact.cut dropped 0).value ≤ exact.value := by
  rw [value_cut, value, value_le_value_iff]
  exact Nat.div_mul_le_self _ _

theorem le_cut (exact : Decimal) (dropped : ℕ) : exact.value ≤ (exact.cut dropped 1).value := by
  rw [value_cut, value, value_le_value_iff, Nat.succ_mul]
  exact (Nat.lt_div_mul_add (Nat.pow_pos (Nat.succ_pos 9))).le

/-- The neighbour above is the nearer one from the middle on. -/
theorem abs_sub_cut_le_iff (exact : Decimal) (dropped : ℕ) :
    |exact.value - (exact.cut dropped 1).value| ≤ |exact.value - (exact.cut dropped 0).value| ↔
      10 ^ dropped ≤ 2 * (exact.coefficient % 10 ^ dropped) := by
  have hsplit := Nat.div_add_mod' exact.coefficient (10 ^ dropped)
  rw [abs_of_nonpos (sub_nonpos.2 (exact.le_cut dropped)),
    abs_of_nonneg (sub_nonneg.2 (exact.cut_le dropped)), neg_sub, sub_le_sub_iff, value_cut,
    value_cut, value, ← add_mul, ← add_mul, ← Nat.cast_add, ← Nat.cast_add, value_le_value_iff]
  simp only [Nat.add_zero, Nat.succ_mul]
  omega

/-- No decimal with so few digits lies between two neighbours. -/
theorem le_cut_or_cut_le (hcount : d.coefficient < 10 ^ (count + 1))
    (hexact : 10 ^ (count + dropped) ≤ exact.coefficient) :
    d.value ≤ (exact.cut dropped 0).value ∨ (exact.cut dropped 1).value ≤ d.value := by
  rcases le_or_gt (exact.exponent + dropped) d.exponent with hle | hlt
  · obtain ⟨shift, hshift⟩ := Int.le.dest hle
    have hvalue : d.value = (d.coefficient * 10 ^ shift : ℕ) * 10 ^ (exact.exponent + dropped) := by
      rw [value, ← hshift, zpow_add₀ (by norm_num), zpow_natCast]
      push_cast
      ring
    rw [hvalue, value, value, cut, cut, value_le_value_iff, value_le_value_iff]
    exact Nat.lt_or_ge _ _ |>.imp_left Nat.le_of_lt_succ
  · left
    have hkept : 10 ^ count ≤ exact.coefficient / 10 ^ dropped := by
      rwa [Nat.le_div_iff_mul_le (Nat.pow_pos (by decide)), ← Nat.pow_add]
    calc
      d.value ≤ (10 ^ (count + 1) : ℕ) * 10 ^ d.exponent :=
        (value_le_value_iff _).2 hcount.le
      _ = (10 ^ count : ℕ) * 10 ^ (d.exponent + 1) := by
        rw [zpow_add₀ (by norm_num), Nat.pow_succ]
        push_cast
        ring
      _ ≤ (10 ^ count : ℕ) * 10 ^ (exact.exponent + dropped) := by
        refine mul_le_mul_of_nonneg_left ?_ (Nat.cast_nonneg _)
        exact zpow_le_zpow_right₀ (by norm_num) (by omega)
      _ ≤ (exact.cut dropped 0).value := (value_le_value_iff _).2 hkept

/-- If a decimal with so few digits rounds alike, then so does a neighbour that is no farther. -/
theorem exists_cut (hd : d.nearestRank = rank) (hexact : exact.nearestRank = rank)
    (hcount : d.coefficient < 10 ^ (count + 1))
    (hlength : 10 ^ (count + dropped) ≤ exact.coefficient) :
    ∃ carry ≤ 1, (exact.cut dropped carry).nearestRank = rank ∧
      |exact.value - (exact.cut dropped carry).value| ≤ |exact.value - d.value| := by
  have hbelow := exact.cut_le dropped
  have habove := exact.le_cut dropped
  rcases le_cut_or_cut_le hcount hlength with hle | hle
  · refine ⟨0, Nat.zero_le 1, nearestRank_eq_of_between hd hexact hle hbelow, ?_⟩
    rw [abs_of_nonneg (sub_nonneg.2 hbelow), abs_of_nonneg (sub_nonneg.2 (hle.trans hbelow))]
    exact sub_le_sub_left hle _
  · refine ⟨1, le_refl 1, nearestRank_eq_of_between hexact hd habove hle, ?_⟩
    rw [abs_of_nonpos (sub_nonpos.2 habove), abs_of_nonpos (sub_nonpos.2 (habove.trans hle))]
    exact neg_le_neg (sub_le_sub_left hle _)

theorem neighbour?_eq (rank : ℕ) (exact : Decimal) (dropped : ℕ) :
    neighbour? rank exact dropped =
      if (exact.cut dropped 0).nearestRank = rank then
        if (exact.cut dropped 1).nearestRank = rank ∧
            10 ^ dropped ≤ 2 * (exact.coefficient % 10 ^ dropped) then
          some (exact.cut dropped 1)
        else some (exact.cut dropped 0)
      else if (exact.cut dropped 1).nearestRank = rank then some (exact.cut dropped 1)
      else none := rfl

/-- Of the neighbours that round back the nearer one is taken. -/
theorem neighbour?_of_cut (hcarry : carry ≤ 1)
    (h : (exact.cut dropped carry).nearestRank = rank) :
    ∃ found, neighbour? rank exact dropped = some found ∧
      |exact.value - found.value| ≤ |exact.value - (exact.cut dropped carry).value| := by
  have hnearer := exact.abs_sub_cut_le_iff dropped
  rw [neighbour?_eq]
  obtain rfl | rfl : carry = 0 ∨ carry = 1 := by omega
  · rw [if_pos h]
    split
    · next hboth => exact ⟨_, rfl, hnearer.2 hboth.2⟩
    · exact ⟨_, rfl, le_refl _⟩
  · rw [if_pos h]
    split
    · split
      · exact ⟨_, rfl, le_refl _⟩
      · next hnot =>
        have hless := mt hnearer.1 fun hstep => hnot ⟨h, hstep⟩
        exact ⟨_, rfl, (not_le.1 hless).le⟩
    · exact ⟨_, rfl, le_refl _⟩

theorem neighbour?_zero (h : exact.nearestRank = rank) : neighbour? rank exact 0 = some exact := by
  obtain ⟨coefficient, exponent⟩ := exact
  simp [neighbour?, h, Nat.mod_one]

theorem exists_neighbour?_shortestFrom (h : exact.nearestRank = rank) (limit : ℕ) :
    ∃ dropped ≤ limit, neighbour? rank exact dropped = some (shortestFrom rank exact limit) ∧
      ∀ more, dropped < more → more ≤ limit → neighbour? rank exact more = none := by
  induction limit with
  | zero => exact ⟨0, le_refl 0, neighbour?_zero h, fun more hmore hle => by omega⟩
  | succ limit ih =>
    rw [shortestFrom]
    cases hneighbour : neighbour? rank exact (limit + 1) with
    | some found => exact ⟨limit + 1, le_refl _, hneighbour, fun more hmore hle => by omega⟩
    | none =>
      obtain ⟨dropped, hle, hfound, hnone⟩ := ih
      refine ⟨dropped, Nat.le_succ_of_le hle, hfound, fun more hmore hlimit => ?_⟩
      rcases Nat.lt_or_eq_of_le hlimit with hless | rfl
      · exact hnone more hmore (Nat.le_of_lt_succ hless)
      · exact hneighbour

theorem trim_coefficient_lt (hpos : 0 < count) (h : d.coefficient ≤ 10 ^ count) :
    d.trim.coefficient < 10 ^ count := by
  fun_induction trim d with
  | case1 => exact Nat.pow_pos (by decide)
  | case2 d hzero hten ih => exact ih (le_trans (Nat.div_le_self _ _) h)
  | case3 d hzero hten =>
    refine Nat.lt_of_le_of_ne h fun heq => hten ?_
    rw [heq, Nat.mod_eq_zero_of_dvd (dvd_pow_self 10 (Nat.pos_iff_ne_zero.1 hpos))]

def digitCount (d : Decimal) : ℕ := (Nat.toDigits 10 d.coefficient).length

theorem digitCount_pos (d : Decimal) : 0 < d.digitCount := Nat.length_toDigits_pos

theorem digitCount_le_iff (hpos : 0 < count) : d.digitCount ≤ count ↔ d.coefficient < 10 ^ count :=
  Nat.length_toDigits_le_iff (by decide) hpos

theorem pow_le_coefficient (hne : d.coefficient ≠ 0) (h : d.digitCount = count + 1) :
    10 ^ count ≤ d.coefficient := by
  by_contra hlt
  rw [Nat.not_le] at hlt
  rcases Nat.eq_zero_or_pos count with rfl | hpos
  · exact hne (Nat.lt_one_iff.1 hlt)
  · have hle := (digitCount_le_iff hpos).2 hlt
    omega

theorem coefficient_ne_zero (h : d.nearestRank ≠ 0) : d.coefficient ≠ 0 := by
  intro hzero
  apply h
  rw [← nearestRank_ofRank 0]
  apply nearestRank_congr
  rw [value_ofRank_eq, magnitude_zero, value, hzero, Nat.cast_zero, zero_mul]

/-- The shortest decimal keeps some digits of the exact one, and no decimal that rounds alike has
fewer. -/
theorem exists_kept (hrank : rank ≠ 0) :
    ∃ kept dropped found, neighbour? rank (ofRank rank) dropped = some found ∧
      shortest rank = found.trim ∧ found.coefficient ≤ 10 ^ (kept + 1) ∧
      10 ^ (kept + dropped) ≤ (ofRank rank).coefficient ∧
      ∀ d count, nearestRank d = rank → d.coefficient < 10 ^ (count + 1) → kept ≤ count := by
  have hexact := nearestRank_ofRank rank
  have hne := coefficient_ne_zero (hexact.trans_ne hrank)
  obtain ⟨last, hlast⟩ := Nat.exists_eq_add_one.2 (ofRank rank).digitCount_pos
  have hlow := pow_le_coefficient hne hlast
  have hhigh := (digitCount_le_iff (Nat.succ_pos last)).1 hlast.le
  obtain ⟨dropped, hle, hfound, hnone⟩ := exists_neighbour?_shortestFrom hexact last
  obtain ⟨kept, hkept⟩ := Nat.exists_eq_add_of_le' hle
  refine ⟨kept, dropped, _, hfound, ?_, ?_, hkept ▸ hlow, ?_⟩
  · rw [shortest, show (Nat.toDigits 10 (ofRank rank).coefficient).length = last + 1 from hlast,
      Nat.add_sub_cancel]
  · obtain ⟨-, carry, hcarry, heq⟩ := neighbour?_eq_some hfound
    rw [heq]
    have hdiv : (ofRank rank).coefficient / 10 ^ dropped < 10 ^ (kept + 1) := by
      apply Nat.div_lt_of_lt_mul
      rwa [← Nat.pow_add, ← Nat.add_assoc, Nat.add_comm dropped, ← hkept]
    show _ + carry ≤ _
    omega
  · intro d count hd hcount
    by_contra hfew
    obtain ⟨more, hmore⟩ : ∃ more, last = count + more := ⟨last - count, by omega⟩
    obtain ⟨carry, hcarry, hreads, -⟩ := exists_cut hd hexact hcount (hmore ▸ hlow)
    obtain ⟨found, hsome, -⟩ := neighbour?_of_cut hcarry hreads
    rw [hnone more (by omega) (by omega)] at hsome
    simp at hsome

/-- The shortest decimal has no more digits than any that rounds to the magnitude. -/
theorem digitCount_shortest_le (hrank : rank ≠ 0) (hd : d.nearestRank = rank)
    (hcount : d.coefficient < 10 ^ count) : (shortest rank).digitCount ≤ count := by
  have hne := coefficient_ne_zero (hd.trans_ne hrank)
  obtain ⟨kept, dropped, found, -, hshortest, hfound, -, hfewest⟩ := exists_kept hrank
  cases count with
  | zero => exact absurd (Nat.lt_one_iff.1 hcount) hne
  | succ count =>
    have hkept := hfewest d count hd hcount
    rw [digitCount_le_iff (Nat.succ_pos count), hshortest]
    refine (trim_coefficient_lt (Nat.succ_pos kept) hfound).trans_le ?_
    exact Nat.pow_le_pow_right (by decide) (Nat.succ_le_succ hkept)

/-- No decimal that rounds to the magnitude and has as few digits is nearer to it. -/
theorem abs_sub_shortest_le (hrank : rank ≠ 0) (hd : d.nearestRank = rank)
    (hcount : d.coefficient < 10 ^ (shortest rank).digitCount) :
    |magnitude rank - (shortest rank).value| ≤ |magnitude rank - d.value| := by
  obtain ⟨kept, dropped, found, hneighbour, hshortest, hfound, hlength, hfewest⟩ :=
    exists_kept hrank
  obtain ⟨count, hdigits⟩ := Nat.exists_eq_add_one.2 (shortest rank).digitCount_pos
  rw [hdigits] at hcount
  have hkept := hfewest d count hd hcount
  have hmost : (shortest rank).digitCount ≤ kept + 1 := by
    rw [digitCount_le_iff (Nat.succ_pos kept), hshortest]
    exact trim_coefficient_lt (Nat.succ_pos kept) hfound
  obtain rfl : kept = count := by omega
  obtain ⟨carry, hcarry, hreads, hcut⟩ :=
    exists_cut hd (nearestRank_ofRank rank) hcount hlength
  obtain ⟨found', hneighbour', hnearer⟩ := neighbour?_of_cut hcarry hreads
  obtain rfl : found = found' := Option.some.inj (hneighbour.symm.trans hneighbour')
  rw [hshortest, value_trim, ← value_ofRank_eq]
  exact hnearer.trans hcut

end Decimal

end ReversePolish
