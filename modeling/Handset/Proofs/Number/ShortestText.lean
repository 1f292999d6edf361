import Handset.Proofs.Number.Numerals
import Handset.Proofs.Number.Rounding

/-!
# The shortest text of a double

The digits are searched on decimal grids, first with one digit, then with more. Seventeen are always enough, and
what is found rounds to the double. However the digits are laid out, with a point or with a power of ten, the text
is a numeral that reads back as the same double.
-/
namespace Handset.Double

variable {d : Double} {binary unit point : Int} {count n : Nat} {x : ℚ}

/-! ### The interval by whole numbers -/

theorem scales_spec (binary unit : Int) :
    0 < (scales binary unit).1 ∧ 0 < (scales binary unit).2 ∧
      ((scales binary unit).2 : ℚ) * 2 ^ binary = (scales binary unit).1 * 10 ^ unit := by
  have hten : Nat.pow 10 unit.toNat = 10 ^ unit.toNat := rfl
  have hten' : Nat.pow 10 (-unit).toNat = 10 ^ (-unit).toNat := rfl
  have hbinary : (2 : ℚ) ^ (-binary).toNat * 2 ^ binary = 2 ^ binary.toNat := by
    rw [← zpow_natCast, ← zpow_natCast, ← zpow_add₀ (by norm_num)]
    congr 1
    omega
  have hunit : (10 : ℚ) ^ (-unit).toNat * 10 ^ unit = 10 ^ unit.toNat := by
    rw [← zpow_natCast, ← zpow_natCast, ← zpow_add₀ (by norm_num)]
    congr 1
    omega
  unfold scales
  rw [hten, hten']
  simp only [Nat.shiftLeft_eq]
  split
  next h =>
    have hnone : (-unit).toNat = 0 := by omega
    rw [hnone, pow_zero, one_mul] at hunit
    refine ⟨by positivity, by positivity, ?_⟩
    push_cast
    rw [mul_assoc, hbinary, hunit]
    ring
  next h =>
    have hnone : unit.toNat = 0 := by omega
    rw [hnone, pow_zero] at hunit
    refine ⟨by positivity, by positivity, ?_⟩
    push_cast
    rw [mul_assoc, hbinary, one_mul, mul_right_comm, hunit, one_mul]

theorem rounds_iff {n scale : Nat} (hm : 0 < d.magnitude.1) (hscale : 0 < scale)
    (hx : x / 2 ^ (d.magnitude.2 - 2) * scale = n) : d.rounds n scale = true ↔ d.Attracts x := by
  have hpos : (0 : ℚ) < scale := by exact_mod_cast hscale
  have hreach := reach_le d
  have hlow : ((4 * d.magnitude.1 - d.reach : Nat) : ℚ) = 4 * d.magnitude.1 - d.reach := by
    rw [Nat.cast_sub (by omega)]
    push_cast
    rfl
  have hhigh : ((4 * d.magnitude.1 + 2 : Nat) : ℚ) = 4 * d.magnitude.1 + 2 := by
    push_cast
    rfl
  have habove (k : Nat) : k * scale ≤ n ↔ (k : ℚ) ≤ x / 2 ^ (d.magnitude.2 - 2) := by
    rw [← mul_le_mul_iff_left₀ hpos, hx]
    exact_mod_cast Iff.rfl
  have hbelow (k : Nat) : n ≤ k * scale ↔ x / 2 ^ (d.magnitude.2 - 2) ≤ k := by
    rw [← mul_le_mul_iff_left₀ hpos, hx]
    exact_mod_cast Iff.rfl
  unfold rounds
  dsimp only
  split
  next heven =>
    have heven := eq_of_beq heven
    rw [Bool.and_eq_true, decide_eq_true_iff, decide_eq_true_iff, habove, hbelow, hlow, hhigh]
    exact ⟨fun h => ⟨h.1, h.2, by omega⟩, fun h => ⟨h.low, h.high⟩⟩
  next hodd =>
    have hodd : d.magnitude.1 % 2 = 1 := by
      have := mt beq_iff_eq.mpr hodd
      omega
    rw [Bool.and_eq_true, decide_eq_true_iff, decide_eq_true_iff, lt_iff_lt_of_le_iff_le (hbelow _),
      lt_iff_lt_of_le_iff_le (habove _), hlow, hhigh]
    exact ⟨fun h => ⟨h.1.le, h.2.le, fun _ => h⟩, fun h => h.odd hodd⟩

/-! ### Candidates -/

/-- The value that a candidate stands for, in the whole numbers of the search. -/
theorem candidate_scaled (d : Double) (point : Int) (count n : Nat) :
    (n * 10 ^ (point - count) : ℚ) / 2 ^ (d.magnitude.2 - 2) * (scales (d.magnitude.2 - 2) (point - count)).1 =
      (n * (scales (d.magnitude.2 - 2) (point - count)).2 : Nat) := by
  obtain ⟨-, -, hscales⟩ := scales_spec (d.magnitude.2 - 2) (point - count)
  rw [div_mul_eq_mul_div, mul_assoc, mul_comm ((10 : ℚ) ^ (point - count : Int)), ← hscales]
  field_simp
  push_cast
  rfl

theorem attracts_of_candidate? (hm : 0 < d.magnitude.1) (h : candidate? d point count = some n) :
    d.Attracts (n * 10 ^ (point - count)) := by
  obtain ⟨hpos, -, -⟩ := scales_spec (d.magnitude.2 - 2) (point - count)
  apply (rounds_iff hm hpos (candidate_scaled d point count n)).mp
  unfold candidate? at h
  generalize scales (d.magnitude.2 - 2) (point - count) = s at *
  dsimp only at h
  split_ifs at h <;> cases h <;> assumption

/-- On a grid that is finer than the interval, one of the two neighbours of the double is inside. -/
theorem exists_rounds_neighbour {scale step : Nat} (hm : 0 < d.magnitude.1) (hstep : 0 < step)
    (hfine : step < 2 * d.reach * scale) :
    d.rounds (4 * d.magnitude.1 * scale / step * step) scale = true ∨
      d.rounds ((4 * d.magnitude.1 * scale / step + 1) * step) scale = true := by
  have hreach := reach_le d
  have hrest := Nat.mod_lt (4 * d.magnitude.1 * scale) hstep
  have hvalue := Nat.div_add_mod (4 * d.magnitude.1 * scale) step
  have hlow : (4 * d.magnitude.1 - d.reach) * scale = 4 * d.magnitude.1 * scale - d.reach * scale :=
    Nat.sub_mul _ _ _
  have hhigh : (4 * d.magnitude.1 + 2) * scale = 4 * d.magnitude.1 * scale + 2 * scale := Nat.add_mul _ _ _
  have hwide : d.reach * scale ≤ 2 * scale := Nat.mul_le_mul_right _ hreach
  have hfar : d.reach * scale ≤ 4 * d.magnitude.1 * scale := Nat.mul_le_mul_right _ (by omega)
  rw [mul_assoc] at hfine
  have hscale : 0 < d.reach * scale := by omega
  unfold rounds
  dsimp only
  rw [hlow, hhigh, Nat.add_mul, Nat.mul_comm (_ / step) step, one_mul]
  generalize 4 * d.magnitude.1 * scale = value at *
  generalize d.reach * scale = down at *
  generalize step * (value / step) = below at *
  generalize value % step = rest at *
  -- the nearer neighbour is less than half a step away
  rcases Nat.lt_or_ge rest down with hnear | hnear
  · left
    split <;> rw [Bool.and_eq_true, decide_eq_true_iff, decide_eq_true_iff] <;> omega
  · right
    split <;> rw [Bool.and_eq_true, decide_eq_true_iff, decide_eq_true_iff] <;> omega

theorem isSome_candidate?_of_rounds {scale step : Nat}
    (hscales : scales (d.magnitude.2 - 2) (point - count) = (scale, step))
    (h : d.rounds (4 * d.magnitude.1 * scale / step * step) scale = true ∨
      d.rounds ((4 * d.magnitude.1 * scale / step + 1) * step) scale = true) :
    (candidate? d point count).isSome = true := by
  unfold candidate?
  rw [hscales]
  dsimp only
  generalize 4 * d.magnitude.1 * scale / step = below at *
  have hne : (below + 1 == below) = false := beq_eq_false_iff_ne.mpr (by omega)
  split_ifs <;> simp_all

theorem isSome_candidate?_seventeen (hm : 0 < d.magnitude.1)
    (hpoint : (10 : ℚ) ^ (point - 1) ≤ d.magnitude.1 * 2 ^ d.magnitude.2) :
    (candidate? d point 17).isSome = true := by
  have hlt := magnitude_lt d
  have hreach : d.reach = if d.magnitude.1 = 2 ^ 52 ∧ -1074 < d.magnitude.2 then 1 else 2 := rfl
  obtain ⟨-, hstep, hscales⟩ := scales_spec (d.magnitude.2 - 2) (point - 17)
  generalize hs : scales (d.magnitude.2 - 2) (point - 17) = s at *
  refine isSome_candidate?_of_rounds hs (exists_rounds_neighbour hm hstep ?_)
  have hpow : (0 : ℚ) < 2 ^ (d.magnitude.2 - 2) := by positivity
  have hsixteen : (10 ^ 16 * s.2 : ℚ) ≤ 4 * d.magnitude.1 * s.1 := by
    apply le_of_mul_le_mul_right _ hpow
    calc (10 ^ 16 * s.2 : ℚ) * 2 ^ (d.magnitude.2 - 2) = 10 ^ (16 : Int) * 10 ^ (point - 17) * s.1 := by
          rw [mul_assoc, hscales, zpow_ofNat]
          ring
      _ = 10 ^ (point - 1) * s.1 := by
          rw [← zpow_add₀ (by norm_num)]
          congr 2
          ring
      _ ≤ d.magnitude.1 * 2 ^ (2 + (d.magnitude.2 - 2)) * s.1 := by
          rw [show 2 + (d.magnitude.2 - 2) = d.magnitude.2 by ring]
          exact mul_le_mul_of_nonneg_right hpoint (by positivity)
      _ = 4 * d.magnitude.1 * s.1 * 2 ^ (d.magnitude.2 - 2) := by
          rw [zpow_add₀ (by norm_num)]
          ring
  have hsixteen : 10 ^ 16 * s.2 ≤ 4 * d.magnitude.1 * s.1 := by exact_mod_cast hsixteen
  -- a significand is less than 2 ^ 53, and 2 ^ 52 where the interval is narrow
  rw [hreach]
  split
  next hpower =>
    rw [hpower.1] at hsixteen
    omega
  next =>
    have : d.magnitude.1 * s.1 ≤ 2 ^ 53 * s.1 := Nat.mul_le_mul_right _ hlt.le
    rw [mul_assoc] at hsixteen
    omega

/-! ### Reading a number of the interval -/

private theorem two_pow_1076_lt : 2 ^ 1076 < 2 * 10 ^ 324 := by decide +kernel

private theorem two_pow_1024_lt : 2 ^ 55 * 2 ^ 969 < 10 ^ 309 := by decide +kernel

theorem Attracts.bounds (hd : d.isFinite = true) (hm : 0 < d.magnitude.1) (h : d.Attracts x) :
    (10 : ℚ) ^ (-324 : Int) < x ∧ x < 10 ^ (309 : Int) := by
  have hpow : (0 : ℚ) < 2 ^ (d.magnitude.2 - 2) := by positivity
  obtain ⟨hlow, hhigh⟩ := h.quarters_bounds hm
  obtain ⟨hmin, -⟩ := magnitude_cases d
  have hmax := magnitude_exponent_le hd
  constructor
  · calc (10 : ℚ) ^ (-324 : Int) < 2 * 2 ^ (-1076 : Int) := by
          rw [zpow_neg, inv_lt_iff_one_lt_mul₀ (by positivity), zpow_neg, ← div_eq_mul_inv, div_mul_eq_mul_div,
            one_lt_div₀ (by positivity)]
          exact_mod_cast two_pow_1076_lt
      _ ≤ 2 * 2 ^ (d.magnitude.2 - 2) := by gcongr <;> [norm_num; omega]
      _ ≤ x := (le_div_iff₀ hpow).mp hlow
  · calc x < 2 ^ 55 * 2 ^ (d.magnitude.2 - 2) := (div_lt_iff₀ hpow).mp hhigh
      _ ≤ 2 ^ 55 * 2 ^ (969 : Int) := by gcongr <;> [norm_num; omega]
      _ < 10 ^ (309 : Int) := by exact_mod_cast two_pow_1024_lt

theorem ofScientific_of_attracts (hd : d.isFinite = true) (hm : 0 < d.magnitude.1) {digits : Nat} {e : Int}
    (h : d.Attracts (digits * 10 ^ e)) : Number.ofScientific d.negative digits e = d := by
  obtain ⟨hlow, hhigh⟩ := h.bounds hd hm
  have hpow : (0 : ℚ) < 10 ^ e := by positivity
  have hten : (1 : ℚ) < 10 := by norm_num
  have hdigits : 0 < digits := by
    apply Nat.pos_of_ne_zero
    rintro rfl
    rw [Nat.cast_zero, zero_mul] at hlow
    exact absurd hlow (by norm_num)
  have hone : (1 : ℚ) ≤ digits := by exact_mod_cast hdigits
  have hlarge : ¬ 400 < e := by
    have hle : (10 : ℚ) ^ e < 10 ^ (309 : Int) := lt_of_le_of_lt (le_mul_of_one_le_left hpow.le hone) hhigh
    have := (zpow_lt_zpow_iff_right₀ hten).mp hle
    omega
  have hsmall : ¬ e < -(400 + ((Nat.toDigits 10 digits).length : Int)) := by
    have hlength : (digits : ℚ) < 10 ^ ((Nat.toDigits 10 digits).length : Int) := by
      exact_mod_cast (Number.digitsOf_bounds hdigits).2
    have hle := hlow.trans (mul_lt_mul_of_pos_right hlength hpow)
    rw [← zpow_add₀ (by norm_num)] at hle
    have := (zpow_lt_zpow_iff_right₀ hten).mp hle
    omega
  rw [Number.ofScientific, if_neg hdigits.ne', if_neg hlarge, if_neg hsmall]
  dsimp only
  have hpow' (k : Nat) : Nat.pow 10 k = 10 ^ k := rfl
  rw [hpow', hpow']
  split
  next he =>
    have hvalue : ((digits * 10 ^ e.toNat : Nat) : ℚ) / (1 : Nat) = digits * 10 ^ e := by
      push_cast
      rw [div_one, ← zpow_natCast, Int.toNat_of_nonneg he]
    rw [ofRatio?_of_attracts hd hm Nat.one_pos (by rw [hvalue]; exact h)]
    rfl
  next he =>
    have hvalue : (digits : ℚ) / (10 ^ (-e).toNat : Nat) = digits * 10 ^ e := by
      push_cast
      rw [← zpow_natCast, Int.toNat_of_nonneg (by omega), zpow_neg, div_inv_eq_mul]
    rw [ofRatio?_of_attracts hd hm (by positivity) (by rw [hvalue]; exact h)]
    rfl

/-! ### The fewest digits -/

theorem le_pow_decimalPoint {num den : Nat} (hden : 0 < den) (hlow : (10 : ℚ) ^ (-330 : Int) ≤ num / den) :
    (10 : ℚ) ^ (decimalPoint num den - 1) ≤ num / den := by
  have hpos : (0 : ℚ) < den := by exact_mod_cast hden
  have hquotient : 0 < num * 10 ^ 330 / den := by
    apply Nat.div_pos _ hden
    have : (den : ℚ) ≤ num * 10 ^ 330 := by
      rw [le_div_iff₀ hpos, zpow_neg, inv_mul_le_iff₀ (by positivity)] at hlow
      rw [mul_comm]
      exact_mod_cast hlow
    exact_mod_cast this
  obtain ⟨hbound, -⟩ := Number.digitsOf_bounds hquotient
  have hlength := @Nat.length_toDigits_pos 10 (num * 10 ^ 330 / den)
  have hpow (k : Nat) : Nat.pow 10 k = 10 ^ k := rfl
  simp only [decimalPoint, digitsOf, hpow]
  generalize (Nat.toDigits 10 (num * 10 ^ 330 / den)).length = length at *
  have hfloor : (10 : ℚ) ^ (length - 1) * den ≤ num * 10 ^ 330 := by
    exact_mod_cast (Nat.mul_le_mul_right den hbound).trans (Nat.div_mul_le_self _ _)
  rw [le_div_iff₀ hpos]
  have hsplit : (10 : ℚ) ^ ((length : Int) - 330 - 1) * 10 ^ 330 = 10 ^ (length - 1) := by
    rw [← zpow_natCast, ← zpow_natCast, ← zpow_add₀ (by norm_num)]
    congr 1
    omega
  apply le_of_mul_le_mul_right _ (by positivity : (0 : ℚ) < 10 ^ 330)
  rw [mul_right_comm, hsplit]
  exact hfloor

theorem ratio_div (d : Double) : (d.ratio.1 / d.ratio.2 : ℚ) = d.magnitude.1 * 2 ^ d.magnitude.2 := by
  have hpos : (0 : ℚ) < d.ratio.2 := by exact_mod_cast ratio_pos d
  rw [ratio_eq, mul_div_cancel_right₀ _ hpos.ne']

private theorem two_pow_1074_le : 2 ^ 1074 ≤ 10 ^ 330 := by decide +kernel

theorem le_ratio_div (hm : 0 < d.magnitude.1) : (10 : ℚ) ^ (-330 : Int) ≤ d.ratio.1 / d.ratio.2 := by
  have hone : (1 : ℚ) ≤ d.magnitude.1 := by exact_mod_cast hm
  rw [ratio_div]
  calc (10 : ℚ) ^ (-330 : Int) ≤ 2 ^ (-1074 : Int) := by
        rw [zpow_neg, zpow_neg]
        apply inv_anti₀ (by positivity)
        exact_mod_cast two_pow_1074_le
    _ ≤ 2 ^ d.magnitude.2 := zpow_le_zpow_right₀ (by norm_num) (magnitude_cases d).1
    _ ≤ d.magnitude.1 * 2 ^ d.magnitude.2 := le_mul_of_one_le_left (by positivity) hone

theorem exists_found (hm : 0 < d.magnitude.1) :
    ∃ n count, ((List.range 17).findSome? fun i =>
        (candidate? d (decimalPoint d.ratio.1 d.ratio.2) (i + 1)).map fun n => (n, i + 1)) = some (n, count) ∧
      d.Attracts (n * 10 ^ (decimalPoint d.ratio.1 d.ratio.2 - (count : Int))) := by
  have hlow := le_pow_decimalPoint (ratio_pos d) (le_ratio_div hm)
  generalize decimalPoint d.ratio.1 d.ratio.2 = point at *
  rw [ratio_div] at hlow
  have hsome : ((List.range 17).findSome? fun i =>
      (candidate? d point (i + 1)).map fun n => (n, i + 1)).isSome = true := by
    rw [List.findSome?_isSome_iff]
    refine ⟨16, by decide, ?_⟩
    rw [Option.isSome_map]
    exact isSome_candidate?_seventeen hm hlow
  obtain ⟨⟨n, count⟩, hfound⟩ := Option.isSome_iff_exists.mp hsome
  obtain ⟨i, -, hcandidate⟩ := List.exists_of_findSome?_eq_some hfound
  obtain ⟨n', hn, hpair⟩ := Option.map_eq_some_iff.mp hcandidate
  cases hpair
  exact ⟨n, i + 1, hfound, attracts_of_candidate? hm hn⟩

/-- The fewest digits are digits of a number that rounds to the double. -/
theorem shortest_spec (hd : d.isFinite = true) (hm : 0 < d.magnitude.1) :
    d.shortest.1 ≠ [] ∧ (∀ c ∈ d.shortest.1, c.isDigit = true) ∧ d.shortest.1.head? ≠ some '0' ∧
      d.Attracts (Number.ofDigits d.shortest.1 * 10 ^ (d.shortest.2 - (d.shortest.1.length : Int))) := by
  obtain ⟨n, count, hfound, hattracts⟩ := exists_found hm
  have hn : 0 < n := by
    apply Nat.pos_of_ne_zero
    rintro rfl
    have := (hattracts.bounds hd hm).1
    rw [Nat.cast_zero, zero_mul] at this
    exact absurd this (by norm_num)
  have hshortest : d.shortest = (((digitsOf n).reverse.dropWhile (· == '0')).reverse,
      decimalPoint d.ratio.1 d.ratio.2 + (digitsOf n).length - count) := by
    unfold shortest
    rw [show d.ratio = (d.ratio.1, d.ratio.2) from rfl]
    dsimp only
    rw [hfound]
    rfl
  obtain ⟨k, htrimmed⟩ := Text.Character.exists_eq_trimmed_append '0' (digitsOf n)
  have hhead : (digitsOf n).head? ≠ some '0' := Number.head?_toDigits hn
  have hdigits : ∀ c ∈ digitsOf n, c.isDigit = true :=
    fun c hc => Nat.isDigit_of_mem_toDigits (by decide) (by decide) hc
  have hvalue : Number.ofDigits (digitsOf n) = n := Number.ofDigits_toDigits n
  rw [hshortest]
  dsimp only
  generalize decimalPoint d.ratio.1 d.ratio.2 = point at *
  generalize ((digitsOf n).reverse.dropWhile (· == '0')).reverse = trimmed at *
  rw [htrimmed] at hhead hdigits hvalue ⊢
  rw [Number.ofDigits_append, Number.ofDigits_replicate_zero, List.length_replicate, add_zero] at hvalue
  have hne : trimmed ≠ [] := by
    rintro rfl
    rw [← hvalue] at hn
    exact absurd hn (by simp [Number.ofDigits])
  obtain ⟨c, cs, rfl⟩ := List.exists_cons_of_ne_nil hne
  refine ⟨hne, fun c hc => hdigits c (List.mem_append_left _ hc), hhead, ?_⟩
  have hworth : (Number.ofDigits (c :: cs) : ℚ) *
      10 ^ (point + ((c :: cs) ++ List.replicate k '0').length - count - (c :: cs).length : Int) =
      n * 10 ^ (point - count : Int) := by
    rw [← hvalue, List.length_append, List.length_replicate]
    push_cast
    rw [mul_assoc, ← zpow_natCast, ← zpow_add₀ (by norm_num)]
    congr 2
    ring
  rw [hworth]
  exact hattracts

/-! ### The text -/

open Number (Numeral ofDigits)

theorem head?_append_ne {ds : List Char} (hne : ds ≠ []) (hhead : ds.head? ≠ some '0') (cs : List Char) :
    (ds ++ cs).head? ≠ some '0' := by
  obtain ⟨c, rest, rfl⟩ := List.exists_cons_of_ne_nil hne
  exact hhead

/-! ### Layouts -/

/-- The text is a numeral with these digits and the point at this place among them. -/
def LaysOut (text : String) (ds : List Char) (point : Int) : Prop :=
  ∃ n : Numeral, text.toList = n.chars ∧ n.worth = ofDigits ds * 10 ^ (point - ds.length)

section
variable {ds : List Char} (hne : ds ≠ []) (hdigits : ∀ c ∈ ds, c.isDigit = true)

include hne hdigits in
theorem laysOut_behind_point (hpoint : point ≤ 0) :
    LaysOut ("0." ++ zerosText (-point).toNat ++ String.ofList ds) ds point := by
  have hplaces : List.replicate (-point).toNat '0' ++ ds ≠ [] := List.append_ne_nil_of_right_ne_nil _ hne
  refine ⟨⟨['0'], List.replicate (-point).toNat '0' ++ ds, none, List.cons_ne_nil _ _,
    fun _ => Number.isDigit_of_mem_zero, ?_, .inl rfl, .inl hplaces⟩, ?_, Numeral.worth_eq (k := 0) ?_ ?_⟩
  · intro c hc
    exact (List.mem_append.mp hc).elim Number.isDigit_of_mem_zeros (hdigits c)
  · rw [Numeral.chars_of_places_ne_nil hplaces]
    simp [zerosText, Numeral.powerChars]
  · change ofDigits (List.replicate 1 '0' ++ (List.replicate (-point).toNat '0' ++ ds)) = _
    rw [Number.ofDigits_zeros_append, Number.ofDigits_zeros_append, pow_zero, mul_one]
  · rw [Numeral.exponent, List.length_append, List.length_replicate, Option.getD_none]
    omega

include hne hdigits in
theorem laysOut_before_point (hhead : ds.head? ≠ some '0') (hpoint : (ds.length : Int) ≤ point) :
    LaysOut (String.ofList ds ++ zerosText (point - ds.length).toNat ++ ".0") ds point := by
  refine ⟨⟨ds ++ List.replicate (point - ds.length).toNat '0', ['0'], none,
    List.append_ne_nil_of_left_ne_nil hne _, ?_, fun _ => Number.isDigit_of_mem_zero,
    .inr (head?_append_ne hne hhead _), .inl (List.cons_ne_nil _ _)⟩, ?_,
    Numeral.worth_eq (k := (point - ds.length).toNat + 1) ?_ ?_⟩
  · intro c hc
    exact (List.mem_append.mp hc).elim (hdigits c) Number.isDigit_of_mem_zeros
  · simp [zerosText, Numeral.chars, Numeral.placesChars, Numeral.powerChars]
  · change ofDigits (ds ++ List.replicate (point - ds.length).toNat '0' ++ List.replicate 1 '0') = _
    rw [List.append_assoc, List.replicate_append_replicate, Number.ofDigits_append_zeros]
  · rw [Numeral.exponent, List.length_singleton, Option.getD_none]
    omega

include hne hdigits in
theorem laysOut_around_point (hhead : ds.head? ≠ some '0') (hpoint : 0 < point) (hinside : point < ds.length) :
    LaysOut (String.ofList (ds.take point.toNat) ++ "." ++ String.ofList (ds.drop point.toNat)) ds point := by
  have hdrop : ds.drop point.toNat ≠ [] := by
    rw [ne_eq, List.drop_eq_nil_iff]
    omega
  refine ⟨⟨ds.take point.toNat, ds.drop point.toNat, none, ?_, fun c hc => hdigits c (List.mem_of_mem_take hc),
    fun c hc => hdigits c (List.mem_of_mem_drop hc), .inr ?_, .inl hdrop⟩, ?_, Numeral.worth_eq (k := 0) ?_ ?_⟩
  · rw [ne_eq, List.take_eq_nil_iff, not_or]
    exact ⟨by omega, hne⟩
  · rw [List.head?_take, if_neg (by omega)]
    exact hhead
  · rw [Numeral.chars_of_places_ne_nil hdrop]
    simp [Numeral.powerChars]
  · rw [Numeral.digits, List.take_append_drop, pow_zero, mul_one]
  · rw [Numeral.exponent, List.length_drop, Option.getD_none]
    omega

end

/-- The digits of the double, however they are laid out, form a numeral that rounds to it. -/
theorem exists_numeral (hd : d.isFinite = true) (hm : 0 < d.magnitude.1) :
    ∃ n : Numeral, d.positiveText.toList = n.chars ∧ d.Attracts n.worth := by
  obtain ⟨hne, hdigits, hhead, hattracts⟩ := shortest_spec hd hm
  suffices hlaid : LaysOut d.positiveText d.shortest.1 d.shortest.2 by
    obtain ⟨n, htext, hworth⟩ := hlaid
    exact ⟨n, htext, hworth ▸ hattracts⟩
  unfold positiveText
  generalize d.shortest = s at *
  obtain ⟨ds, point⟩ := s
  dsimp only at hne hdigits hhead ⊢
  split
  next =>
    split
    next hsmall => exact laysOut_behind_point hne hdigits hsmall
    next hlarge =>
      split
      next hwhole => exact laysOut_before_point hne hdigits hhead hwhole
      next hpart => exact laysOut_around_point hne hdigits hhead (by omega) (by omega)
  next =>
    -- one digit stands before the point, and the power is written
    obtain ⟨c, rest, rfl⟩ := List.exists_cons_of_ne_nil hne
    refine ⟨⟨[c], rest, some (point - 1), List.cons_ne_nil _ _, ?_, fun c hc => hdigits c (List.mem_cons_of_mem _ hc),
      .inr hhead, .inr (Option.some_ne_none _)⟩, ?_, Numeral.worth_eq (k := 0) ?_ ?_⟩
    · intro c' hc
      rw [List.mem_singleton.mp hc]
      exact hdigits c List.mem_cons_self
    · have hsign : (if point - 1 < 0 then "-" else "+").toList = [if point - 1 < 0 then '-' else '+'] := by
        split <;> rfl
      rw [String.toList_append, String.toList_append, hsign]
      cases rest <;> simp [Numeral.chars, Numeral.placesChars, Numeral.powerChars]
    · rw [Numeral.digits, List.singleton_append, pow_zero, mul_one]
    · rw [Numeral.exponent, Option.getD_some, List.length_cons]
      dsimp only
      omega

theorem eq_zero_of_isZero (h : d.isZero = true) : zero d.negative = d := by
  have hbits : d.bits.toNat % 2 ^ 63 = 0 := eq_of_beq h
  rw [zero, ← hbits, ofFields_bits]

theorem eq_infinity_of_isInfinite (h : d.isInfinite = true) : infinity d.negative = d := by
  rw [isInfinite, Bool.and_eq_true, beq_iff_eq, beq_iff_eq, exponentField_eq, fraction_eq] at h
  have hbits : d.bits.toNat % 2 ^ 63 = 2047 <<< 52 := by omega
  rw [infinity, ← hbits, ofFields_bits]

theorem magnitude_pos (h : ¬ d.isZero = true) : 0 < d.magnitude.1 := by
  rw [isZero_iff] at h
  unfold magnitude
  split
  · dsimp only
    omega
  · dsimp only
    omega

/-- The double is a number or an infinity, or it is the one pattern of bits that is written for what is none. -/
def Plain (d : Double) : Prop :=
  d.isNaN = true → d = nan

/-- The text of a finite double is a numeral, after its sign, and the numeral reads back as the double. -/
theorem exists_numeral_text (hd : d.isFinite = true) :
    ∃ n : Numeral, d.text.toList = (if d.negative then ['-'] else []) ++ n.chars ∧
      Number.ofScientific d.negative n.digits n.exponent = d := by
  obtain ⟨hnan, hinfinite⟩ := Num.not_isNaN_of_isFinite hd
  have hsign : (if d.negative = true then "-" else "").toList = if d.negative = true then ['-'] else [] := by
    split <;> rfl
  unfold text
  rw [hnan, hinfinite, if_neg Bool.false_ne_true]
  dsimp only
  rw [if_neg Bool.false_ne_true]
  split
  next hzero =>
    refine ⟨⟨['0'], ['0'], none, List.cons_ne_nil _ _, fun _ => Number.isDigit_of_mem_zero,
      fun _ => Number.isDigit_of_mem_zero, .inl rfl, .inl (List.cons_ne_nil _ _)⟩, ?_, ?_⟩
    · rw [String.toList_append, hsign]
      rfl
    · exact eq_zero_of_isZero hzero
  next hzero =>
    obtain ⟨n, htext, hattracts⟩ := exists_numeral hd (magnitude_pos hzero)
    refine ⟨n, ?_, ofScientific_of_attracts hd (magnitude_pos hzero) hattracts⟩
    rw [String.toList_append, hsign, htext]

end Handset.Double
