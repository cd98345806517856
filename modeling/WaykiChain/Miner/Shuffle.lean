import Mathlib

/-! # The delegate scheduler

`ShuffleDelegates` permutes the top-`N` list by swaps drawn from a chain of 256-bit digests
seeded on the epoch `ceil(h / N)`, and `GetCurrentDelegate` indexes the result by `slot mod N`.
The hasher is abstract: `hasher seed k` is the `k`-th digest of the chain started from `seed`.
The loop index is a `uint32` that both loops increment, so each pass ends one position past the
four its digest serves: the loops compute `skippingShuffle`, which never swaps from a position
`5k + 4`, and which agrees with the spec's `specShuffle` only up to four delegates.
-/

namespace WaykiChain.Miner.Shuffle

/-- A digest as the loop reads it: the four 64-bit lanes at offsets `0, 8, 16, 24`. -/
abbrev Digest := Fin 4 → UInt64

variable {α : Type}

/-- The three statements exchanging `delegateList[newIndex]` and `delegateList[i]`; an index
past the end has no meaning in C++ and fails here. -/
def swapAt (l : List α) (i newIndex : Nat) : Option (List α) := do
  let regId ← l[newIndex]?
  let atI ← l[i]?
  pure ((l.set newIndex atI).set i regId)

/-- `for (x = 0; x < 4 && i < N; i++, x++)`: one swap per lane of `currentSeed`. -/
def innerLoop (N : Nat) (currentSeed : Digest) :
    List (Fin 4) → Nat → List α → Option (Nat × List α)
  | [], i, l => some (i, l)
  | x :: xs, i, l =>
    if i < N then
      (swapAt l i ((currentSeed x).toNat % N)).bind
        (innerLoop N currentSeed xs ((i + 1) % 2 ^ 32))
    else some (i, l)

/-- `for (i = 0; i < N; i++)` around the inner loop, rehashing after each pass. `fuel` bounds
the passes; it runs out only where the C++ loop would not stop. -/
def outerLoop (N : Nat) (digests : Nat → Digest) : Nat → Nat → Nat → List α → Option (List α)
  | 0, _, _, _ => none
  | fuel + 1, k, i, l =>
    if i < N then
      match innerLoop N (digests k) [0, 1, 2, 3] i l with
      | none => none
      | some (i', l') => outerLoop N digests fuel (k + 1) ((i' + 1) % 2 ^ 32) l'
    else some l

/-- The epoch `nCurHeight / N + (nCurHeight % N > 0 ? 1 : 0)` that seeds the hasher. -/
def seedOf (N nCurHeight : Nat) : Nat :=
  nCurHeight / N + if nCurHeight % N > 0 then 1 else 0

/-- With no delegate slot the seed's `nCurHeight / totalDelegateNum` divides by zero, and the
shuffle fails. -/
def shuffleDelegates (N : Nat) (hasher : Nat → Nat → Digest) (nCurHeight : Nat)
    (delegateList : List α) : Option (List α) :=
  if N = 0 then none else outerLoop N (hasher (seedOf N nCurHeight)) (N + 1) 0 0 delegateList

/-- `slot = currentTime / GetBlockInterval(h)` narrowed to `uint32`, then `slot % N`; a zero
interval or delegate count divides by zero, and there is no slot. -/
def slotIndex (N interval currentTime : Nat) : Option Nat :=
  if interval = 0 ∨ N = 0 then none else some (currentTime / interval % 2 ^ 32 % N)

def getCurrentDelegate (N interval currentTime : Nat) (delegateList : List α) : Option α :=
  (slotIndex N interval currentTime).bind (delegateList[·]?)

theorem shuffleDelegates_of_pos {N : Nat} (hN : 1 ≤ N) (hasher : Nat → Nat → Digest)
    (nCurHeight : Nat) (delegateList : List α) :
    shuffleDelegates N hasher nCurHeight delegateList =
      outerLoop N (hasher (seedOf N nCurHeight)) (N + 1) 0 0 delegateList :=
  if_neg (by omega)

theorem getCurrentDelegate_of_pos {N interval : Nat} (hN : 1 ≤ N) (hI : 0 < interval)
    (currentTime : Nat) (delegateList : List α) :
    getCurrentDelegate N interval currentTime delegateList =
      delegateList[currentTime / interval % 2 ^ 32 % N]? := by
  rw [getCurrentDelegate, slotIndex, if_neg (by omega), Option.some_bind]

theorem getCurrentDelegate_eq_of_div_eq {N interval t t' : Nat} (h : t / interval = t' / interval)
    (delegateList : List α) :
    getCurrentDelegate N interval t delegateList =
      getCurrentDelegate N interval t' delegateList := by
  simp only [getCurrentDelegate, slotIndex, h]

theorem set_set_perm (l : List α) {i j : Nat} (hi : i < l.length) (hj : j < l.length) :
    ((l.set j l[i]).set i l[j]).Perm l := by
  have h : (l.set j l[i]).set i l[j] =
      List.ofFn ((fun k : Fin l.length => l[(k : Nat)]) ∘ Equiv.swap ⟨i, hi⟩ ⟨j, hj⟩) := by
    apply List.ext_getElem (by simp)
    intro k _ _
    simp only [List.getElem_set, List.getElem_ofFn, Function.comp, Equiv.swap_apply_def,
      Fin.ext_iff]
    by_cases hik : i = k <;> by_cases hjk : j = k <;> simp [hik, hjk, eq_comm]
  rw [h]
  refine (Equiv.Perm.ofFn_comp_perm _ _).trans ?_
  rw [List.ofFn_getElem]

theorem swapAt_perm {l : List α} {i j : Nat} (hi : i < l.length) (hj : j < l.length) :
    ∃ l', swapAt l i j = some l' ∧ l'.Perm l :=
  ⟨_, by simp [swapAt, hi, hj], set_set_perm l hi hj⟩

theorem innerLoop_perm {N : Nat} (hN : N < 2 ^ 32) (currentSeed : Digest) :
    ∀ (lanes : List (Fin 4)) (i : Nat) (l : List α), l.length = N → i ≤ N →
      ∃ l', innerLoop N currentSeed lanes i l = some (min (i + lanes.length) N, l') ∧ l'.Perm l
  | [], i, l, _, hi => ⟨l, by simp [innerLoop, Nat.min_eq_left hi], List.Perm.refl l⟩
  | x :: xs, i, l, hl, hi => by
    by_cases hiN : i < N
    · have hj : (currentSeed x).toNat % N < l.length := hl ▸ Nat.mod_lt _ (by omega)
      obtain ⟨l₁, hs, hp₁⟩ := swapAt_perm (show i < l.length by omega) hj
      obtain ⟨l₂, hr, hp₂⟩ := innerLoop_perm hN currentSeed xs ((i + 1) % 2 ^ 32) l₁
        (hp₁.length_eq.trans hl) (by omega)
      refine ⟨l₂, ?_, hp₂.trans hp₁⟩
      rw [innerLoop, if_pos hiN, hs, Option.some_bind, hr, Nat.mod_eq_of_lt (by omega)]
      simp only [List.length_cons]
      congr 2
      omega
    · exact ⟨l, by simp [innerLoop, hiN, show N = i by omega], List.Perm.refl l⟩

/-- At the head of the outer loop `i` is a multiple of five or has passed `N`. The increment
after a pass never wraps: a pass ends on `N` only when `5 ∤ N`, and `5 ∣ 2 ^ 32 - 1`. -/
theorem outerLoop_perm {N : Nat} (hN : N < 2 ^ 32) (digests : Nat → Digest) :
    ∀ (fuel k i : Nat) (l : List α), l.length = N → i % 5 = 0 ∨ N ≤ i → i ≤ N + 1 →
      N ≤ i + 5 * fuel → ∃ l', outerLoop N digests (fuel + 1) k i l = some l' ∧ l'.Perm l := by
  intro fuel
  induction fuel with
  | zero =>
    intro k i l _ _ _ hf
    exact ⟨l, by simp [outerLoop, show ¬ i < N by omega], .refl l⟩
  | succ fuel ih =>
    intro k i l hl hi hi' hf
    by_cases hiN : i < N
    · obtain ⟨l₁, hr, hp₁⟩ := innerLoop_perm hN (digests k) [0, 1, 2, 3] i l hl hiN.le
      have hwrap : (min (i + 4) N + 1) % 2 ^ 32 = min (i + 4) N + 1 := Nat.mod_eq_of_lt (by omega)
      obtain ⟨l₂, hr₂, hp₂⟩ := ih (k + 1) (min (i + 4) N + 1) l₁ (hp₁.length_eq.trans hl)
        (by omega) (by omega) (by omega)
      refine ⟨l₂, ?_, hp₂.trans hp₁⟩
      rw [outerLoop, if_pos hiN, hr]
      simpa only [List.length_cons, List.length_nil, hwrap] using hr₂
    · exact ⟨l, by simp [outerLoop, hiN], .refl l⟩

/-- `ShuffleDelegates` on a list of exactly `N ≥ 1` delegates stops, indexes only positions below
`N`, and permutes its input, for every height and every digest chain; so `GetCurrentDelegate`
on the result returns one of the top-`N` delegates. -/
theorem shuffleDelegates_perm {N : Nat} (hN1 : 1 ≤ N) (hN : N < 2 ^ 32)
    (hasher : Nat → Nat → Digest) (nCurHeight : Nat) (delegateList : List α)
    (hl : delegateList.length = N) :
    ∃ shuffled, shuffleDelegates N hasher nCurHeight delegateList = some shuffled ∧
      shuffled.Perm delegateList ∧
      ∀ interval, 0 < interval → ∀ currentTime, ∃ d,
        getCurrentDelegate N interval currentTime shuffled = some d ∧ d ∈ delegateList := by
  obtain ⟨shuffled, hs, hp⟩ :=
    outerLoop_perm hN _ N 0 0 delegateList hl (by simp) (by omega) (by omega)
  refine ⟨shuffled, (shuffleDelegates_of_pos hN1 ..).trans hs, hp, fun interval hI t => ?_⟩
  have hidx : t / interval % 2 ^ 32 % N < shuffled.length := by
    rw [hp.length_eq, hl]
    exact Nat.mod_lt _ (by omega)
  rw [getCurrentDelegate_of_pos hN1 hI, List.getElem?_eq_getElem hidx]
  exact ⟨_, rfl, hp.subset (List.getElem_mem hidx)⟩

theorem shuffleDelegates_perm_three :
    1 ≤ 3 ∧ 3 < 2 ^ 32 ∧
      ∃ shuffled, shuffleDelegates 3 (fun _ _ _ => 7) 12 [10, 11, 12] = some shuffled ∧
        shuffled.Perm [10, 11, 12] ∧
        ∀ interval, 0 < interval → ∀ currentTime, ∃ d,
          getCurrentDelegate 3 interval currentTime shuffled = some d ∧ d ∈ [10, 11, 12] :=
  ⟨by decide, by decide, shuffleDelegates_perm (by decide) (by decide) _ 12 [10, 11, 12] rfl⟩

/-! ## One round of slots

`GetCurrentDelegate` reads the shuffled list at `slot % N`. Below the `uint32` wrap of the slot
number, `N` consecutive slots read it rotated, so each top delegate is given exactly one of them.
-/

theorem filterMap_range_getElem?_add_mod (l : List α) (s : Nat) :
    (List.range l.length).filterMap (fun k => l[(s + k) % l.length]?) = l.rotate s := by
  rcases Nat.eq_zero_or_pos l.length with h | hpos
  · simp [List.eq_nil_of_length_eq_zero h]
  · have hsome : ∀ k, l[(s + k) % l.length]? =
        some (l.get ⟨(s + k) % l.length, Nat.mod_lt _ hpos⟩) := fun k => List.getElem?_eq_getElem _
    simp only [hsome]
    rw [← Function.comp_def some, List.filterMap_eq_map]
    apply List.ext_getElem (by simp)
    intro k _ _
    simp [List.getElem_rotate, Nat.add_comm]

/-- For every height and every ranking of `N` delegates the shuffle succeeds, and at that height and
one interval, any `N` consecutive slots whose numbers stay below the `uint32` wrap go to the
delegates of the ranking, each exactly once. -/
theorem getCurrentDelegate_round {N : Nat} (hN1 : 1 ≤ N) (hN : N < 2 ^ 32)
    (hasher : Nat → Nat → Digest) (nCurHeight : Nat) (delegateList : List α)
    (hl : delegateList.length = N) :
    ∃ shuffled, shuffleDelegates N hasher nCurHeight delegateList = some shuffled ∧
      ∀ (interval slot : Nat) (times : Nat → Nat), 0 < interval → slot % 2 ^ 32 + N ≤ 2 ^ 32 →
        (∀ k < N, times k / interval = slot + k) →
        ((List.range N).filterMap fun k =>
          getCurrentDelegate N interval (times k) shuffled).Perm delegateList := by
  obtain ⟨shuffled, hs, hp⟩ :=
    outerLoop_perm hN _ N 0 0 delegateList hl (by simp) (by omega) (by omega)
  have hlen : shuffled.length = N := hp.length_eq.trans hl
  refine ⟨shuffled, (shuffleDelegates_of_pos hN1 ..).trans hs,
    fun interval slot times hI hwrap ht => ?_⟩
  have hslot : ∀ k ∈ List.range N, getCurrentDelegate N interval (times k) shuffled =
      shuffled[(slot % 2 ^ 32 + k) % shuffled.length]? := by
    intro k hk
    have hk := List.mem_range.1 hk
    rw [getCurrentDelegate_of_pos hN1 hI, ht k hk, hlen]
    congr 2
    omega
  rw [List.filterMap_congr hslot, ← hlen, filterMap_range_getElem?_add_mod]
  exact (List.rotate_perm _ _).trans hp

theorem getCurrentDelegate_round_three :
    ∃ shuffled, shuffleDelegates 3 (fun _ _ _ => 7) 12 [10, 11, 12] = some shuffled ∧
      ((List.range 3).filterMap fun k =>
        getCurrentDelegate 3 10 (50 + 10 * k) shuffled).Perm [10, 11, 12] := by
  obtain ⟨shuffled, hs, h⟩ := getCurrentDelegate_round (by decide) (by decide) (fun _ _ _ => 7) 12
    [10, 11, 12] rfl
  exact ⟨shuffled, hs, h 10 5 (fun k => 50 + 10 * k) (by decide) (by decide) fun k _ =>
    show (50 + 10 * k) / 10 = 5 + k by omega⟩

/-- The shuffle the spec describes: positions `i = 0, …, N-1` in order, position `i` swapped with
lane `i mod 4` of digest `⌊i/4⌋`, modulo `N`. -/
def specShuffle (N : Nat) (digests : Nat → Digest) (l : List α) : Option (List α) :=
  (List.range N).foldlM
    (fun l i => swapAt l i ((digests (i / 4) ⟨i % 4, Nat.mod_lt _ (by decide)⟩).toNat % N)) l

/-- One position of the shuffle the two loops run: digest `k` serves positions `5k, …, 5k+3` with
its four lanes, and position `5k+4` is passed over by the outer `i++`. -/
def skippingStep (N : Nat) (digests : Nat → Digest) (l : List α) (i : Nat) : Option (List α) :=
  if h : i % 5 = 4 then some l
  else swapAt l i ((digests (i / 5) ⟨i % 5, by omega⟩).toNat % N)

def skippingShuffle (N : Nat) (digests : Nat → Digest) (l : List α) : Option (List α) :=
  (List.range N).foldlM (skippingStep N digests) l

theorem innerLoop_eq_foldlM {N : Nat} (hN : N < 2 ^ 32) (d : Digest)
    (step : List α → Nat → Option (List α)) :
    ∀ (lanes : List (Fin 4)) (i : Nat) (l : List α), i ≤ N →
      (∀ j (hj : j < lanes.length), i + j < N →
        ∀ l, step l (i + j) = swapAt l (i + j) ((d lanes[j]).toNat % N)) →
      innerLoop N d lanes i l = ((List.range' i (min lanes.length (N - i))).foldlM step l).map
        fun l' => (min (i + lanes.length) N, l')
  | [], i, l, hi, _ => by simp [innerLoop, Nat.min_eq_left hi]
  | x :: xs, i, l, hi, hstep => by
    by_cases hiN : i < N
    · have h0 : step l i = swapAt l i ((d x).toNat % N) := hstep 0 (Nat.succ_pos _) (by omega) l
      have hlen : min (xs.length + 1) (N - i) = min xs.length (N - (i + 1)) + 1 := by omega
      have hnext : ∀ j (hj : j < xs.length), i + 1 + j < N →
          ∀ l, step l (i + 1 + j) = swapAt l (i + 1 + j) ((d xs[j]).toNat % N) :=
        fun j hj _ l => by
          simpa only [List.getElem_cons_succ, show i + (j + 1) = i + 1 + j by omega] using
            hstep (j + 1) (by simpa using hj) (by omega) l
      rw [innerLoop, if_pos hiN, Nat.mod_eq_of_lt (show i + 1 < 2 ^ 32 by omega), List.length_cons,
        hlen, List.range'_succ, List.foldlM_cons, h0]
      cases swapAt l i ((d x).toNat % N) with
      | none => rfl
      | some l₁ =>
        rw [Option.some_bind, innerLoop_eq_foldlM hN d step xs (i + 1) l₁ (by omega) hnext,
          show i + 1 + xs.length = i + (xs.length + 1) by omega]
        rfl
    · simp [innerLoop, hiN, show N - i = 0 by omega, show min (i + (xs.length + 1)) N = i by omega]

theorem innerLoop_pass {N : Nat} (hN : N < 2 ^ 32) (digests : Nat → Digest) (k : Nat)
    (l : List α) (hk : 5 * k < N) :
    innerLoop N (digests k) [0, 1, 2, 3] (5 * k) l =
      ((List.range' (5 * k) (min 4 (N - 5 * k))).foldlM (skippingStep N digests) l).map
        fun l' => (min (5 * k + 4) N, l') :=
  innerLoop_eq_foldlM hN _ _ _ _ l hk.le fun j hj _ l => by
    have hj4 : j < 4 := hj
    have hlane : (⟨(5 * k + j) % 5, by omega⟩ : Fin 4) = [0, 1, 2, 3][j] := by
      apply Fin.ext
      show (5 * k + j) % 5 = _
      rw [show (5 * k + j) % 5 = j by omega]
      interval_cases j <;> rfl
    rw [skippingStep, dif_neg (by omega), hlane, show (5 * k + j) / 5 = k by omega]

theorem outerLoop_eq_foldlM {N : Nat} (hN : N < 2 ^ 32) (digests : Nat → Digest) :
    ∀ (fuel k : Nat) (l : List α), N ≤ 5 * k + 5 * fuel →
      outerLoop N digests (fuel + 1) k (5 * k) l =
        (List.range' (5 * k) (N - 5 * k)).foldlM (skippingStep N digests) l := by
  intro fuel
  induction fuel with
  | zero =>
    intro k l hf
    simp [outerLoop, show ¬ 5 * k < N by omega, show N - 5 * k = 0 by omega]
  | succ fuel ih =>
    intro k l hf
    by_cases hk : 5 * k < N
    · rw [outerLoop, if_pos hk, innerLoop_pass hN digests k l hk]
      by_cases hlast : N ≤ 5 * k + 4
      · -- the pass reaches `N`, and the loop stops
        have hwrap : (N + 1) % 2 ^ 32 = N + 1 := Nat.mod_eq_of_lt (by omega)
        rw [Nat.min_eq_right (show N - 5 * k ≤ 4 by omega), Nat.min_eq_right hlast]
        cases (List.range' (5 * k) (N - 5 * k)).foldlM (skippingStep N digests) l with
        | none => rfl
        | some l₁ =>
          simp only [Option.map_some', hwrap]
          simp [outerLoop]
      · -- position `5k + 4` is passed over, and the next pass starts at `5 (k + 1)`
        have hnext : (5 * k + 4 + 1) % 2 ^ 32 = 5 * (k + 1) := Nat.mod_eq_of_lt (by omega)
        have hsplit : List.range' (5 * k) (N - 5 * k) = List.range' (5 * k) 4 ++
            (5 * k + 4) :: List.range' (5 * (k + 1)) (N - 5 * (k + 1)) := by
          have h := List.range'_append_1 (5 * k) 4 (N - 5 * (k + 1) + 1)
          rw [show N - 5 * (k + 1) + 1 + 4 = N - 5 * k by omega, List.range'_succ (5 * k + 4),
            show 5 * k + 4 + 1 = 5 * (k + 1) by omega] at h
          exact h.symm
        rw [Nat.min_eq_left (show 4 ≤ N - 5 * k by omega), Nat.min_eq_left (by omega), hsplit,
          List.foldlM_append]
        cases (List.range' (5 * k) 4).foldlM (skippingStep N digests) l with
        | none => rfl
        | some l₁ =>
          have hskip : skippingStep N digests l₁ (5 * k + 4) = some l₁ := by
            simp [skippingStep, Nat.add_mod]
          simp only [Option.map_some', hnext, List.foldlM_cons, Option.bind_eq_bind,
            Option.some_bind, hskip]
          exact ih (k + 1) l₁ (by omega)
    · simp [outerLoop, hk, show N - 5 * k = 0 by omega]

/-- `ShuffleDelegates` runs the shuffle in which digest `k` swaps the positions `5k, …, 5k+3` with
its four lanes, and no position `5k+4` is ever the source of a swap: for every `N` a `uint32`
holds, every height, list and digest chain. -/
theorem shuffleDelegates_eq_skippingShuffle {N : Nat} (hN1 : 1 ≤ N) (hN : N < 2 ^ 32)
    (hasher : Nat → Nat → Digest) (nCurHeight : Nat) (delegateList : List α) :
    shuffleDelegates N hasher nCurHeight delegateList =
      skippingShuffle N (hasher (seedOf N nCurHeight)) delegateList := by
  have h := outerLoop_eq_foldlM hN (hasher (seedOf N nCurHeight)) N 0 delegateList (by omega)
  rwa [Nat.mul_zero, Nat.sub_zero, ← List.range_eq_range', ← shuffleDelegates_of_pos hN1] at h

theorem shuffleDelegates_eq_skippingShuffle_seven :
    1 ≤ 7 ∧ 7 < 2 ^ 32 ∧
      shuffleDelegates 7 (fun _ k x => (k + x.val).toUInt64) 3 (List.range 7) =
        skippingShuffle 7 (fun k x => (k + x.val).toUInt64) (List.range 7) :=
  ⟨by decide, by decide, shuffleDelegates_eq_skippingShuffle (by decide) (by decide) _ 3 _⟩

theorem foldlM_congr {β : Type} {f g : List α → β → Option (List α)} :
    ∀ (xs : List β) (l : List α), (∀ x ∈ xs, ∀ l, f l x = g l x) → xs.foldlM f l = xs.foldlM g l
  | [], _, _ => rfl
  | x :: xs, l, h => by
    simp only [List.foldlM_cons, h x (List.mem_cons_self _ _)]
    congr 1
    funext l₁
    exact foldlM_congr xs l₁ fun y hy => h y (List.mem_cons_of_mem _ hy)

/-- With at most four delegates every position lies in the first digest's block, so the code
and the spec agree. -/
theorem shuffleDelegates_eq_specShuffle_of_le_four {N : Nat} (hN1 : 1 ≤ N) (hN : N ≤ 4)
    (hasher : Nat → Nat → Digest) (nCurHeight : Nat) (delegateList : List α) :
    shuffleDelegates N hasher nCurHeight delegateList =
      specShuffle N (hasher (seedOf N nCurHeight)) delegateList := by
  have h := outerLoop_eq_foldlM (show N < 2 ^ 32 by omega) (hasher (seedOf N nCurHeight)) N 0
    delegateList (by omega)
  rw [Nat.mul_zero, Nat.sub_zero, ← List.range_eq_range'] at h
  rw [shuffleDelegates_of_pos hN1, h, specShuffle]
  refine foldlM_congr _ _ fun i hi l => ?_
  have hi4 : i < 4 := by simp at hi; omega
  rw [skippingStep, dif_neg (show i % 5 ≠ 4 by omega)]
  simp only [show i / 5 = i / 4 by omega, show i % 5 = i % 4 by omega]

theorem shuffleDelegates_eq_specShuffle_three :
    1 ≤ 3 ∧ 3 ≤ 4 ∧ shuffleDelegates 3 (fun _ _ _ => 7) 12 [10, 11, 12] =
      specShuffle 3 (fun _ _ => 7) [10, 11, 12] :=
  ⟨by decide, by decide, shuffleDelegates_eq_specShuffle_of_le_four (by decide) (by decide) _ 12 _⟩

theorem swapAt_getElem?_of_ne {l l' : List α} {i j k : Nat} (h : swapAt l i j = some l')
    (hi : i ≠ k) (hj : j ≠ k) : l'[k]? = l[k]? := by
  simp only [swapAt, Option.bind_eq_bind, Option.bind_eq_some, Option.pure_def,
    Option.some.injEq] at h
  obtain ⟨_, -, _, -, rfl⟩ := h
  simp [hi, hj]

theorem foldlM_getElem?_of_frame {β : Type} {f : List α → β → Option (List α)} (k : Nat) :
    ∀ (xs : List β) {l l' : List α}, (∀ x ∈ xs, ∀ l l', f l x = some l' → l'[k]? = l[k]?) →
      xs.foldlM f l = some l' → l'[k]? = l[k]?
  | [], _, _, _, h => by cases h; rfl
  | x :: xs, l, l', hf, h => by
    rw [List.foldlM_cons, Option.bind_eq_bind, Option.bind_eq_some] at h
    obtain ⟨l₁, h₁, h₂⟩ := h
    rw [foldlM_getElem?_of_frame k xs (fun y hy => hf y (List.mem_cons_of_mem _ hy)) h₂,
      hf x (List.mem_cons_self _ _) _ _ h₁]

/-- For every `N ≥ 5` the code and the spec part on the chain whose lanes all read `0`: both
send positions `1, 2, 3` to the front, then the spec's swap of position `4` moves delegate `3`
there, while the code passes position `4` over and no later swap touches it. -/
theorem shuffleDelegates_ne_specShuffle {N : Nat} (h5 : 5 ≤ N) (hN : N < 2 ^ 32)
    (nCurHeight : Nat) :
    shuffleDelegates N (fun _ _ _ => 0) nCurHeight (List.range N) ≠
      specShuffle N (fun _ _ => 0) (List.range N) := by
  intro heq
  obtain ⟨c, hc, -⟩ := outerLoop_perm hN (fun _ _ => 0) N 0 0 (List.range N) (by simp) (by simp)
    (by omega) (by omega)
  have hspec : specShuffle N (fun _ _ => 0) (List.range N) = some c :=
    heq ▸ (shuffleDelegates_of_pos (by omega) ..).trans hc
  have hcode := outerLoop_eq_foldlM hN (fun _ _ => 0) N 0 (List.range N) (by omega)
  rw [Nat.mul_zero, Nat.sub_zero, ← List.range_eq_range', hc] at hcode
  have hsplit : List.range N = [0, 1, 2, 3, 4] ++ List.range' 5 (N - 5) := by
    have h := List.range'_append_1 0 5 (N - 5)
    rw [Nat.sub_add_cancel h5] at h
    rw [List.range_eq_range', ← h]
    rfl
  rw [hsplit, List.foldlM_append] at hcode
  rw [specShuffle, hsplit, List.foldlM_append] at hspec
  simp only [List.cons_append, List.nil_append, List.foldlM_cons, skippingStep, swapAt,
    UInt64.toNat_ofNat, Nat.zero_mod, Nat.reduceMod, Nat.reduceEqDiff, List.getElem?_cons_zero,
    List.getElem?_cons_succ, List.set_cons_zero, List.set_cons_succ, Option.bind_eq_bind,
    Option.some_bind, Option.pure_def, reduceDIte] at hcode hspec
  have hrest : ∀ i ∈ List.range' 5 (N - 5), i ≠ 4 := fun i hi => by simp at hi; omega
  have hc4 := foldlM_getElem?_of_frame 4 _ (fun i hi l l' h => by
    simp only [skippingStep] at h
    split at h
    · cases h; rfl
    · exact swapAt_getElem?_of_ne (by simpa using h) (hrest i hi) (by omega)) hcode.symm
  have hs4 := foldlM_getElem?_of_frame 4 _ (fun i hi l l' h =>
    swapAt_getElem?_of_ne (show swapAt l i 0 = some l' from h) (hrest i hi) (by omega)) hspec
  simp only [List.getElem?_cons_succ, List.getElem?_cons_zero] at hc4 hs4
  exact absurd (hc4.symm.trans hs4) (by decide)

theorem shuffleDelegates_ne_specShuffle_five :
    5 ≤ 5 ∧ 5 < 2 ^ 32 ∧
      shuffleDelegates 5 (fun _ _ _ => 0) 0 (List.range 5) = some [3, 0, 1, 2, 4] ∧
      specShuffle 5 (fun _ _ => 0) (List.range 5) = some [4, 0, 1, 2, 3] ∧
      shuffleDelegates 5 (fun _ _ _ => 0) 0 (List.range 5) ≠
        specShuffle 5 (fun _ _ => 0) (List.range 5) :=
  ⟨by decide, by decide, rfl, rfl, shuffleDelegates_ne_specShuffle (by decide) (by decide) 0⟩

end WaykiChain.Miner.Shuffle
