import ClosedLoop.Proofs.Cost
import ClosedLoop.Proofs.Engine.Draws

namespace ClosedLoop

/-!
# Which words a cost is drawn from

The cost of a request is sampled with seven means, and only a positive mean of a distribution that
scatters takes a word from the source. The number of words that a cost takes is therefore a number
of the profile, and the costs of successive requests lie in the stream of words like blocks of that
length.

* `WordSource.wordAt`, `WordSource.after` — the words of a source by their number, and what is left;
* `Distribution.sample_after` — the word that a draw takes, if it takes one;
* `Profile.costOf` — the cost that a block of words stands for: each positive mean takes the word
  whose number is that of the positive means before it;
* `Profile.costOf_congr` — no word behind the block matters;
* `Profile.drawCost_after`, `Profile.wordsAfter_eq` — one request takes one block, and so a whole
  run of requests takes the blocks in a row;
* `Profile.components_of_zero` — a mean of zero makes a component of zero;
* `Profile.draws_aligned` — **draws stay aligned**.
-/

/-! ### The words of a source -/

namespace WordSource

variable {σ : Type} [WordSource σ]

/-- The source after so many words. -/
def after (s : σ) : Nat → σ
  | 0 => s
  | n + 1 => (next (after s n)).2

/-- The words that a source yields, numbered from zero. -/
def wordAt (s : σ) (n : Nat) : UInt64 := (next (after s n)).1

end WordSource

open WordSource

/-! ### One draw -/

/-- A mean that is not at most zero is positive, as it is a number. -/
theorem IsMean.not_le_zero_iff {x : Float} (h : IsMean x) : ¬ x ≤ 0 ↔ 0 < x := by
  obtain ⟨p, -, hp⟩ := h.exists_hasPattern
  rw [hp.le_iff Double.hasPattern_zero, Double.hasPattern_zero.lt_iff hp, Nat.not_le]

namespace Distribution

/-- How many words are taken for some means: one for each positive mean, and none without
scatter. -/
def draws (d : Distribution) (means : List Float) : Nat :=
  match d with
  | constant => 0
  | uniform _ | exponential => means.countP (0 < ·)

/-- What a draw makes of a word: zero unless the mean is positive. -/
def valueOf (d : Distribution) (mean : Float) (word : UInt64) : Float :=
  if 0 < mean then d.valueAt mean (unitOfWord word) else 0

/-- Draws add up. -/
theorem draws_append (d : Distribution) (means more : List Float) :
    d.draws (means ++ more) = d.draws means + d.draws more := by
  cases d with
  | constant => rfl
  | uniform _ | exponential => exact List.countP_append

/-- A draw takes the next word for a positive mean that scatters, and no word else. -/
theorem sample_after {σ : Type} [WordSource σ] (d : Distribution) {mean : Float} (h : IsMean mean)
    (s : σ) (n : Nat) :
    d.sample mean (after s n) = (d.valueOf mean (wordAt s n), after s (n + d.draws [mean])) := by
  rw [sample, valueOf]
  by_cases hpos : 0 < mean
  -- A positive mean that scatters is the only one for which a word is taken.
  · rw [if_neg (h.not_le_zero_iff.mpr hpos), if_pos hpos]
    cases d with
    | constant => rfl
    | uniform _ | exponential =>
      simp only [draws, List.countP_singleton, hpos, decide_true, if_true]
      rfl
  · have hle : mean ≤ 0 := by
      by_contra hnot
      exact hpos (h.not_le_zero_iff.mp hnot)
    rw [if_pos hle, if_neg hpos]
    cases d with
    | constant => rfl
    | uniform _ | exponential =>
      simp only [draws, List.countP_singleton, hpos, decide_false, Bool.false_eq_true, if_false]
      rfl

/-- Nothing is drawn with a mean of zero. -/
theorem valueOf_of_zero (d : Distribution) {mean : Float} (h : IsMean mean)
    (hzero : (mean == 0) = true) (word : UInt64) : d.valueOf mean word = 0 := by
  obtain ⟨p, -, hp⟩ := h.exists_hasPattern
  have hnot : ¬ 0 < mean := by
    rw [Double.hasPattern_zero.lt_iff hp, (hp.beq_iff Double.hasPattern_zero).mp hzero]
    exact Nat.lt_irrefl 0
  rw [valueOf, if_neg hnot]

/-- Only the word that a draw takes matters to it. -/
theorem valueOf_congr (d : Distribution) {mean : Float} {word word' : UInt64}
    (h : 0 < d.draws [mean] → word = word') : d.valueOf mean word = d.valueOf mean word' := by
  rw [valueOf, valueOf]
  by_cases hpos : 0 < mean
  · rw [if_pos hpos, if_pos hpos]
    cases d with
    | constant => simp only [valueAt]
    | uniform _ | exponential =>
      have htaken : word = word' := h (by simp [draws, hpos])
      rw [htaken]
  · rw [if_neg hpos, if_neg hpos]

end Distribution

/-! ### One cost -/

namespace Profile

/-- The means that a cost is drawn with, in the order of the draws. -/
def drawnMeans (p : Profile) : List Float :=
  [p.readSize, p.rpcTime, p.memUpdateSize, p.logAppendSize, p.lookupTime, p.rpcSize, p.replySize]

/-- How many words the first means take. -/
def drawsBefore (p : Profile) (k : Nat) : Nat := p.distribution.draws (p.drawnMeans.take k)

/-- How many words one cost takes. -/
def drawsPerCost (p : Profile) : Nat := p.distribution.draws p.drawnMeans

/-- What is drawn with one of the means: the means before it take their words first. -/
def drawn (p : Profile) (word : Nat → UInt64) (k : Nat) : Float :=
  p.distribution.valueOf (p.drawnMeans.getD k 0) (word (p.drawsBefore k))

/-- The cost that is drawn from some words. -/
def costOf (p : Profile) (word : Nat → UInt64) : Cost where
  cpuTime := p.drawn word 1
  memWrite := p.drawn word 2
  logWrite := p.drawn word 3
  lookupTime := p.drawn word 4
  localRead := p.drawn word 0 * p.shortCircuitRatio
  remoteRead := atLeastZero (p.drawn word 0 - p.drawn word 0 * p.shortCircuitRatio)
  request := p.drawn word 5
  response := p.drawn word 6

/-- The mean that each component of a cost is drawn with; the two parts of the data read share
one. -/
def componentMeans (p : Profile) : List Float :=
  [p.rpcTime, p.memUpdateSize, p.logAppendSize, p.lookupTime, p.readSize, p.readSize, p.rpcSize,
    p.replySize]

variable {p : Profile} {k : Nat}

/-- The draws before the next component. -/
theorem drawsBefore_succ (hk : k < 7) :
    p.drawsBefore (k + 1) = p.drawsBefore k + p.distribution.draws [p.drawnMeans.getD k 0] := by
  have hlength : k < p.drawnMeans.length := hk
  rw [drawsBefore, drawsBefore, ← Distribution.draws_append, List.getD_eq_getElem _ _ hlength,
    List.take_concat_get']

/-- No component is drawn after the last draw. -/
theorem drawsBefore_le (p : Profile) (k : Nat) : p.drawsBefore k ≤ p.drawsPerCost := by
  rw [drawsPerCost, ← List.take_append_drop k p.drawnMeans, Distribution.draws_append]
  exact Nat.le_add_right _ _

/-- The means of a valid profile are finite and not negative. -/
theorem isMean_of_mem_drawnMeans (h : p.validate = .ok ()) {mean : Float}
    (hmem : mean ∈ p.drawnMeans) : IsMean mean := by
  have hmeets := (validate_ok_iff_meets p).mp h
  revert mean
  simp only [drawnMeans, List.forall_mem_cons, List.not_mem_nil, false_implies, implies_true,
    and_true]
  exact ⟨hmeets .readSize, (hmeets .rpcTime).1, hmeets .memUpdateSize, hmeets .logAppendSize,
    (hmeets .lookupTime).1, hmeets .rpcSize, hmeets .replySize⟩

/-- Only the words that a cost takes matter to it. -/
theorem costOf_congr {word word' : Nat → UInt64}
    (h : ∀ j < p.drawsPerCost, word j = word' j) : p.costOf word = p.costOf word' := by
  have hdrawn (k : Nat) (hk : k < 7) : p.drawn word k = p.drawn word' k := by
    apply Distribution.valueOf_congr
    intro htaken
    apply h
    -- The words that the draw leaves begin within the block or right behind it.
    have hle := p.drawsBefore_le (k + 1)
    rw [drawsBefore_succ hk] at hle
    omega
  simp only [costOf, hdrawn 0 (by decide), hdrawn 1 (by decide), hdrawn 2 (by decide),
    hdrawn 3 (by decide), hdrawn 4 (by decide), hdrawn 5 (by decide), hdrawn 6 (by decide)]

variable {σ : Type} [WordSource σ]

/-- Each of the draws for a cost takes up the words where the draw before it has left them. -/
theorem sample_drawn (h : p.validate = .ok ()) (s : σ) (n : Nat) (hk : k < 7) :
    p.distribution.sample (p.drawnMeans.getD k 0) (after s (n + p.drawsBefore k)) =
      (p.drawn (fun j => wordAt s (n + j)) k, after s (n + p.drawsBefore (k + 1))) := by
  have hlength : k < p.drawnMeans.length := hk
  have hmem : p.drawnMeans.getD k 0 ∈ p.drawnMeans := by
    rw [List.getD_eq_getElem _ _ hlength]
    exact List.getElem_mem hlength
  rw [Distribution.sample_after _ (isMean_of_mem_drawnMeans h hmem), drawsBefore_succ hk,
    Nat.add_assoc, drawn]

/-- The seven draws for a cost, each from the source that the draw before it has left. -/
theorem drawCost_chain (p : Profile) (s : σ) :
    p.drawCost s =
      let read := p.distribution.sample p.readSize s
      let cpuTime := p.distribution.sample p.rpcTime read.2
      let memWrite := p.distribution.sample p.memUpdateSize cpuTime.2
      let logWrite := p.distribution.sample p.logAppendSize memWrite.2
      let lookupTime := p.distribution.sample p.lookupTime logWrite.2
      let request := p.distribution.sample p.rpcSize lookupTime.2
      let response := p.distribution.sample p.replySize request.2
      ({ cpuTime := cpuTime.1
         memWrite := memWrite.1
         logWrite := logWrite.1
         lookupTime := lookupTime.1
         localRead := read.1 * p.shortCircuitRatio
         remoteRead := atLeastZero (read.1 - read.1 * p.shortCircuitRatio)
         request := request.1
         response := response.1 }, response.2) :=
  -- Each draw starts from the source that is paired with the one before.
  rfl

/-- **One request takes one block of words.** -/
theorem drawCost_after (h : p.validate = .ok ()) (s : σ) (n : Nat) :
    p.drawCost (after s n) =
      (p.costOf fun j => wordAt s (n + j), after s (n + p.drawsPerCost)) := by
  have hdraw {k : Nat} (hk : k < 7) := sample_drawn h s n hk
  have hread := hdraw (show 0 < 7 by decide)
  have hcpu := hdraw (show 1 < 7 by decide)
  have hmem := hdraw (show 2 < 7 by decide)
  have hlog := hdraw (show 3 < 7 by decide)
  have hlookup := hdraw (show 4 < 7 by decide)
  have hrequest := hdraw (show 5 < 7 by decide)
  have hresponse := hdraw (show 6 < 7 by decide)
  have hstart : p.drawsBefore 0 = 0 := by
    rw [drawsBefore, List.take_zero]
    cases p.distribution <;> rfl
  have hend : p.drawsBefore 7 = p.drawsPerCost := by
    rw [drawsBefore, drawsPerCost, List.take_of_length_le (Nat.le_refl 7)]
  -- The first draw begins where the block begins, and the last one ends where it ends.
  rw [hstart, Nat.add_zero] at hread
  rw [show 6 + 1 = 7 from rfl, hend] at hresponse
  simp only [drawnMeans, List.getD_cons_zero, List.getD_cons_succ]
    at hread hcpu hmem hlog hlookup hrequest hresponse
  rw [drawCost_chain]
  simp only [hread, hcpu, hmem, hlog, hlookup, hrequest, hresponse, costOf]

/-- Successive requests take the blocks in a row. -/
theorem wordsAfter_eq (h : p.validate = .ok ()) (s : σ) (n : Nat) :
    p.wordsAfter s n = after s (n * p.drawsPerCost) := by
  induction n with
  | zero => rw [Nat.zero_mul]; rfl
  | succ n ih => rw [wordsAfter, ih, drawCost_after h, Nat.succ_mul]

/-- The cost of a request is that of its own block of words. -/
theorem costAt_eq (h : p.validate = .ok ()) (s : σ) (n : Nat) :
    p.costAt s n = p.costOf fun j => wordAt s (n * p.drawsPerCost + j) := by
  rw [costAt, wordsAfter_eq h, drawCost_after h]

/-- Components with a mean of zero are zero, and so are both parts of the data read. -/
theorem components_of_zero (h : p.validate = .ok ()) (word : Nat → UInt64) :
    List.Forall₂ (fun mean x => (mean == 0) = true → (x == 0) = true)
      p.componentMeans (p.costOf word).components := by
  have hmeets := (validate_ok_iff_meets p).mp h
  have hratio : IsShare p.shortCircuitRatio := hmeets .shortCircuitRatio
  have hsame : ((0 : Float) == 0) = true :=
    (Double.hasPattern_zero.beq_iff Double.hasPattern_zero).mpr rfl
  have hdrawn {mean : Float} (hmean : IsMean mean) (w : UInt64) (hzero : (mean == 0) = true) :
      (p.distribution.valueOf mean w == 0) = true := by
    rw [p.distribution.valueOf_of_zero hmean hzero w]
    exact hsame
  have hread (hzero : (p.readSize == 0) = true) : p.drawn word 0 = 0 :=
    p.distribution.valueOf_of_zero (hmeets .readSize) hzero _
  simp only [componentMeans, Cost.components, costOf, List.forall₂_cons, List.Forall₂.nil, and_true]
  refine ⟨hdrawn (hmeets .rpcTime).1 _, hdrawn (hmeets .memUpdateSize) _,
    hdrawn (hmeets .logAppendSize) _, hdrawn (hmeets .lookupTime).1 _, ?_, ?_,
    hdrawn (hmeets .rpcSize) _, hdrawn (hmeets .replySize) _⟩
  -- A share of zero may be zero of either sign, so it only compares equal to zero.
  · intro hzero
    have hfinite : (0 : Float).isFinite = true :=
      Double.hasPattern_zero.isFinite_iff.mpr (by decide)
    obtain ⟨⟨r, hr⟩, hle⟩ := (Double.hasPattern_zero.mul_share_iff hratio).1 (.inl hfinite)
    rw [hread hzero]
    exact hr.beq_zero_of_le hle
  · intro hzero
    obtain ⟨r, hr⟩ := Double.exists_hasPattern_atLeastZero (0 - 0 * p.shortCircuitRatio)
    rw [hread hzero]
    exact hr.beq_zero_of_le (Double.hasPattern_zero.atLeastZero_sub_le hratio)

/-- **Draws stay aligned.** However many requests a valid profile builds from whichever source, each
takes as many words as there are positive means, or none without scatter. The cost of a request is
that of its own block of words, in which each positive mean takes the word after those of the
positive means before it, and no other word matters. Components with a mean of zero are zero, and
without scatter all costs from all sources are the same. -/
theorem draws_aligned (p : Profile) (h : p.validate = .ok ()) :
    (∀ {σ : Type} [WordSource σ] (s : σ) (n : Nat),
      p.wordsAfter s n = after s (n * p.drawsPerCost) ∧
        p.costAt s n = p.costOf fun k => wordAt s (n * p.drawsPerCost + k)) ∧
    (∀ word word' : Nat → UInt64,
      (∀ k < p.drawsPerCost, word k = word' k) → p.costOf word = p.costOf word') ∧
    (∀ word, List.Forall₂ (fun mean x => (mean == 0) = true → (x == 0) = true)
      p.componentMeans (p.costOf word).components) ∧
    (p.distribution = .constant →
      ∃ cost, ∀ {σ : Type} [WordSource σ] (s : σ) (n : Nat), p.costAt s n = cost) := by
  refine ⟨fun s n => ⟨wordsAfter_eq h s n, costAt_eq h s n⟩, fun _ _ => costOf_congr,
    components_of_zero h, fun hconstant => ⟨p.costOf fun _ => 0, fun s n => ?_⟩⟩
  -- Without scatter there is no word to differ in.
  have hnone : p.drawsPerCost = 0 := by rw [drawsPerCost, hconstant, Distribution.draws]
  rw [costAt_eq h]
  apply costOf_congr
  intro k hk
  rw [hnone] at hk
  exact absurd hk (Nat.not_lt_zero k)

/-- Three of the seven means are positive. -/
def mixedMeans : Profile :=
  { blank 1 "mixed" with
    readSize := 64, memUpdateSize := 0.5, rpcSize := 0.25, distribution := .uniform 0.5 }

/-- Two requests take six words, and the third one is drawn from those that follow. -/
theorem draws_aligned_mixedMeans :
    mixedMeans.validate = .ok () ∧ mixedMeans.drawsPerCost = 3 ∧
      mixedMeans.wordsAfter (Cycle.ofList [5, 6, 7, 8]) 2 = after (Cycle.ofList [5, 6, 7, 8]) 6 ∧
      mixedMeans.costAt (Cycle.ofList [5, 6, 7, 8]) 2 =
        mixedMeans.costOf fun k => wordAt (Cycle.ofList [5, 6, 7, 8]) (6 + k) := by
  have hvalid : mixedMeans.validate = .ok () := by
    rw [validate_ok_iff]
    decide +kernel
  have hdraws : mixedMeans.drawsPerCost = 3 := by decide +kernel
  obtain ⟨hwords, hcost⟩ := (draws_aligned mixedMeans hvalid).1 (Cycle.ofList [5, 6, 7, 8]) 2
  rw [hdraws] at hwords hcost
  exact ⟨hvalid, hdraws, hwords, hcost⟩

end Profile

end ClosedLoop
