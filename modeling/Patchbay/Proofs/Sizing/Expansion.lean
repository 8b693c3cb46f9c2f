import Patchbay.Proofs.Sizing.Compute

/-!
# Calls and iterations as compositions

A call stands for its arguments side by side, with a wire for each input that they leave open, led into the box that is
called. An iteration stands for copies of its body: side by side, one after another, or side by side with the outputs
merged. `Dimension.chain` joins boxes by one operator, and the closed formulas for calls and iterations are what it
gives.
-/

open List

namespace Patchbay

variable {body count : Box} {n : Nat} {value : Binary64} {callee : Dimension} {dims : List Dimension}

namespace Dimension

/-- Boxes joined by one operator, from left to right; none if there is no box or if two of them do not fit. -/
def chain (op : Operator) : List Dimension → Option Dimension
  | [] => none
  | first :: rest => rest.foldlM (compose op) first

/-- As many wires. -/
def wires (count : Nat) : Dimension := ⟨count, count⟩

theorem total_append (count : Dimension → Nat) (dims others : List Dimension) :
    total count (dims ++ others) = total count dims + total count others := by
  induction dims with
  | nil => simp [total]
  | cons d dims ih =>
    simp only [total, cons_append, foldr_cons] at ih ⊢
    omega

theorem total_replicate (count : Dimension → Nat) (n : Nat) (d : Dimension) :
    total count (List.replicate n d) = n * count d := by
  induction n with
  | zero => simp [total]
  | succ n ih =>
    rw [replicate_succ, total, foldr_cons, ← total, ih, Nat.succ_mul, Nat.add_comm]

/-- Boxes side by side have the signals of all of them. -/
theorem chain_par (h : dims ≠ []) : chain .par dims = some ⟨total (·.inputs) dims, total (·.outputs) dims⟩ := by
  obtain ⟨first, rest, rfl⟩ := exists_cons_of_ne_nil h
  rw [chain]
  induction rest generalizing first with
  | nil => rfl
  | cons d rest ih =>
    rw [foldlM_cons]
    refine (ih ⟨first.inputs + d.inputs, first.outputs + d.outputs⟩ (by simp)).trans ?_
    simp only [total, foldr_cons, Nat.add_assoc]

/-- Copies side by side, put next to nothing at first. -/
theorem chain_par_replicate (n : Nat) (d : Dimension) :
    chain .par (⟨0, 0⟩ :: List.replicate n d) = some ⟨n * d.inputs, n * d.outputs⟩ := by
  rw [chain_par (by simp), ← singleton_append, total_append, total_append, total_replicate, total_replicate]
  simp [total]

/-- A box can be put after a copy of itself if it has as many outputs as inputs, and that changes nothing. -/
theorem chain_seq_replicate (n : Nat) (d : Dimension) :
    chain .seq (List.replicate (n + 1) d) = if 1 < n + 1 ∧ d.inputs ≠ d.outputs then none else some d := by
  rw [replicate_succ, chain]
  induction n with
  | zero => simp
  | succ n ih =>
    rw [replicate_succ, foldlM_cons]
    by_cases hfits : d.inputs = d.outputs
    · have hstep : compose .seq d d = some d := by rw [compose, if_pos hfits.symm]
      rw [hstep, if_neg (fun h => h.2 hfits)]
      exact ih.trans (if_neg fun h => h.2 hfits)
    · have hstep : compose .seq d d = none := by simp [compose, Ne.symm hfits]
      rw [hstep, if_pos ⟨by omega, hfits⟩]
      rfl

/-- Outputs that come in groups of the right size can be merged, also if there are none. -/
theorem compose_merge_copies (n : Nat) (d : Dimension) :
    compose .merge ⟨n * d.inputs, n * d.outputs⟩ (wires d.outputs) = some ⟨n * d.inputs, d.outputs⟩ := by
  by_cases hnone : d.outputs = 0
  · simp [compose, wires, hnone]
  · simp [compose, wires, hnone]

end Dimension

namespace Sizing

open Dimension

variable {c : Context} {s : State} {mark : Mark} {name : String} {args : List Box}

/-- A call whose arguments do not supply too much is their row, filled up with wires, led into the callee. -/
theorem callDimension_eq_compose (h : total (·.outputs) dims ≤ callee.inputs) :
    ∃ row, chain .par (dims ++ [wires (callee.inputs - total (·.outputs) dims)]) = some row
      ∧ callDimension callee dims = compose .seq row callee ∧ (callDimension callee dims).isSome := by
  refine ⟨_, chain_par (by simp), ?_, ?_⟩
  · have hwires (count : Dimension → Nat) (n : Nat) : total count [wires n] = count (wires n) := rfl
    have hfits : total (·.outputs) dims + (wires (callee.inputs - total (·.outputs) dims)).outputs = callee.inputs :=
      Nat.add_sub_cancel' h
    rw [total_append, total_append, hwires, hwires, callDimension, if_neg (Nat.not_lt.mpr h), compose]
    refine Eq.trans ?_ (if_pos hfits).symm
    rw [Nat.add_sub_assoc h]
    rfl
  · rw [callDimension, if_neg (Nat.not_lt.mpr h)]
    rfl

/-- What a name stands for is looked up without a trace, if it has a dimension. -/
theorem sizeReference_eq (h : (sizeReference c s mark).1 = some callee) :
    sizeReference c s mark = (some callee, s) := by
  rcases sizeReference_cases c s mark with ⟨dim, hsame, -⟩ | ⟨_, -, -, hcycle⟩
  · rw [hsame] at h ⊢
    exact Prod.ext h rfl
  · simp [hcycle] at h

/-- The call is neither an iteration nor one of a user-interface box or of a parameter. -/
def IsOrdinary (c : Context) (mark : Mark) (name : String) (args : List Box) : Prop :=
  iterationParts? c mark.id name args = none ∧
    ∃ symbol, c.resolution.symbol? mark.id = some symbol ∧ symbol.kind ≠ .ui ∧ symbol.kind ≠ .parameter

theorem sizeBox_of_ordinary (hvalid : mark.invalid = false) (h : IsOrdinary c mark name args) :
    sizeBox c s (.call mark name args) = sizeCall c s mark name args := by
  obtain ⟨hparts, symbol, hsymbol, hui, hparameter⟩ := h
  have hbox : (Box.call mark name args).invalid = false := hvalid
  rw [sizeBox, if_neg (by simp [hbox])]
  simp only [hsymbol, hparts, if_neg hui, if_neg hparameter]

theorem sizeBox_of_iteration (hvalid : mark.invalid = false)
    (h : iterationParts? c mark.id name args = some (count, body)) :
    sizeBox c s (.call mark name args) = sizeIteration c s mark name count body := by
  have hbox : (Box.call mark name args).invalid = false := hvalid
  have hbound : c.resolution.symbol? mark.id ≠ none := by
    intro hnone
    unfold iterationParts? at h
    split at h
    · simp [hnone] at h
    · simp at h
  obtain ⟨symbol, hsymbol⟩ := Option.ne_none_iff_exists'.mp hbound
  rw [sizeBox, if_neg (by simp [hbox])]
  simp only [hsymbol, h]

/-- A natural number is finite and not below zero. -/
theorem natural_of_toInt? (h : value.toInt? = some (n : Int)) :
    value.isFinite ∧ value.lt (.finite false 0) = false := by
  cases value with
  | infinite | nan => simp [Binary64.toInt?] at h
  | finite negative units =>
    refine ⟨rfl, ?_⟩
    have hwhole : units % Binary64.one = 0 ∧ Binary64.signedUnits negative (units / Binary64.one) = n := by
      simpa [Binary64.toInt?] using h
    have hunits := Nat.div_add_mod units Binary64.one
    generalize units / Binary64.one = quotient at hwhole hunits
    cases negative with
    | false => simp [Binary64.lt, Binary64.signedUnits]
    | true =>
      -- Only zero is a natural number with a minus sign.
      have hzero : quotient = 0 := by
        have hsign := hwhole.2
        simp only [Binary64.signedUnits, if_true] at hsign
        omega
      rw [hzero, hwhole.1, Nat.mul_zero] at hunits
      simp [Binary64.lt, Binary64.signedUnits, ← hunits]

/-- A count that is a natural number asks for so many copies, and only copies that cannot be chained are reported. -/
theorem sizeIteration_of_natural (mark : Mark) (name : String) {b : Dimension} (hbody : s.dim? body = some b)
    (hcount : c.resolution.constant? count = some value) (hn : value.toInt? = some (n : Int)) :
    (∀ result, iterationDimension name n b = some result →
        sizeIteration c s mark name count body = (some result, s))
      ∧ (iterationDimension name n b = none →
        sizeIteration c s mark name count body = (none, s.report mark.position (.badChain b))) := by
  obtain ⟨hfinite, hlt⟩ := natural_of_toInt? hn
  unfold sizeIteration
  simp only [hbody, hcount, hn, hfinite, hlt, Bool.not_true, Bool.false_eq_true, if_false, Int.toNat_natCast]
  constructor
  · intro result hresult
    rw [hresult]
  · intro hnone
    rw [hnone]

/-- Calls and iterations are sized like what they stand for. An ordinary call is reported exactly if its arguments
supply more signals than the callee takes, and has the dimension of its arguments and of wires for the inputs they
leave, side by side, led into the callee, otherwise. An iteration with a natural number as its count has the dimension
of so many copies of its body: side by side for `par`; one after another for `seq`, which is reported exactly if they do
not fit; side by side and merged for `sum` and `prod`. -/
theorem sizeBox_expands (c : Context) (s : State) (mark : Mark) (name : String) (args : List Box)
    (hvalid : mark.invalid = false) :
    (∀ callee dims, IsOrdinary c mark name args → args.mapM s.dim? = some dims →
      (sizeReference c s mark).1 = some callee →
      (callee.inputs < total (·.outputs) dims → sizeBox c s (.call mark name args)
        = (none, s.report mark.position (.tooManySignals name callee.inputs (total (·.outputs) dims))))
      ∧ (total (·.outputs) dims ≤ callee.inputs → ∃ row result,
        chain .par (dims ++ [wires (callee.inputs - total (·.outputs) dims)]) = some row
          ∧ compose .seq row callee = some result ∧ sizeBox c s (.call mark name args) = (some result, s)))
    ∧ ∀ count body b value n, iterationParts? c mark.id name args = some (count, body) → s.dim? body = some b →
      c.resolution.constant? count = some value → value.toInt? = some (Int.ofNat n) →
      (name = "par" → ∃ row, chain .par (⟨0, 0⟩ :: List.replicate n b) = some row
        ∧ sizeBox c s (.call mark name args) = (some row, s))
      ∧ (name = "seq" → 1 ≤ n →
        (∀ result, chain .seq (List.replicate n b) = some result →
          sizeBox c s (.call mark name args) = (some result, s))
        ∧ (chain .seq (List.replicate n b) = none →
          sizeBox c s (.call mark name args) = (none, s.report mark.position (.badChain b))))
      ∧ (name = "sum" ∨ name = "prod" → ∃ row result, chain .par (⟨0, 0⟩ :: List.replicate n b) = some row
        ∧ compose .merge row (wires b.outputs) = some result
        ∧ sizeBox c s (.call mark name args) = (some result, s)) := by
  constructor
  · intro callee dims hordinary hdims hcallee
    rw [sizeBox_of_ordinary hvalid hordinary, sizeCall, hdims, sizeReference_eq hcallee]
    dsimp only
    constructor
    · intro hless
      rw [callDimension, if_pos hless]
    · intro hle
      obtain ⟨row, hrow, hcompose, hsome⟩ := callDimension_eq_compose hle
      obtain ⟨result, hresult⟩ := Option.isSome_iff_exists.mp hsome
      exact ⟨row, result, hrow, hcompose.symm.trans hresult, by rw [hresult]⟩
  · intro count body b value n hparts hbody hcount hn
    rw [sizeBox_of_iteration hvalid hparts]
    obtain ⟨hsome, hnone⟩ := sizeIteration_of_natural mark name hbody hcount hn
    refine ⟨?_, ?_, ?_⟩
    · rintro rfl
      exact ⟨_, chain_par_replicate n b, hsome _ (if_pos rfl)⟩
    · rintro rfl hpos
      obtain ⟨k, rfl⟩ := Nat.exists_eq_add_one.mpr hpos
      rw [chain_seq_replicate]
      have hrule : iterationDimension "seq" (k + 1) b
          = if 1 < k + 1 ∧ b.inputs ≠ b.outputs then none else some b := by
        simp [iterationDimension]
      rw [← hrule]
      exact ⟨hsome, hnone⟩
    · intro hname
      have hrule : iterationDimension name n b = some ⟨n * b.inputs, b.outputs⟩ := by
        rcases hname with rfl | rfl <;> rfl
      exact ⟨_, _, chain_par_replicate n b, compose_merge_copies n b, hsome _ hrule⟩

/-- The arguments of `sum(i, 3, !)`. -/
def cuts : List Box :=
  [.ref ⟨5, ⟨1, 21⟩, false⟩ "i", .number ⟨6, ⟨1, 24⟩, false⟩ (.finite false (3 * Binary64.one)) "3",
    .ref ⟨7, ⟨1, 27⟩, false⟩ "!"]

/-- The arguments of `+(1)`. -/
def summand : List Box := [.number ⟨3, ⟨1, 13⟩, false⟩ (.finite false Binary64.one) "1"]

/-- The program `process = +(1), sum(i, 3, !);`. -/
def summedCuts : Program :=
  ⟨[], [], [⟨⟨1, ⟨1, 1⟩, false⟩, "process", [],
    some (.compose ⟨8, ⟨1, 15⟩, false⟩ .par (.call ⟨2, ⟨1, 11⟩, false⟩ "+" summand)
      (.call ⟨4, ⟨1, 17⟩, false⟩ "sum" cuts)), ⟨1, 30⟩⟩]⟩

/-- What the program `summedCuts` is sized with. -/
def summedCutsContext : Context := ⟨(summedCuts.resolve standardPrimitives .empty).1, standardPrimitives⟩

/-- One input of `+` is left open by its argument; three cuts together take three signals and give none. -/
theorem sizeBox_expands_cuts :
    sizeBox summedCutsContext (sizeProgram summedCutsContext summedCuts) (.call ⟨2, ⟨1, 11⟩, false⟩ "+" summand)
        = (some ⟨1, 1⟩, sizeProgram summedCutsContext summedCuts)
      ∧ sizeBox summedCutsContext (sizeProgram summedCutsContext summedCuts) (.call ⟨4, ⟨1, 17⟩, false⟩ "sum" cuts)
        = (some ⟨3, 0⟩, sizeProgram summedCutsContext summedCuts) := by
  constructor
  · have hbound : ∃ symbol, summedCutsContext.resolution.symbol? 2 = some symbol
        ∧ symbol.kind ≠ .ui ∧ symbol.kind ≠ .parameter :=
      ⟨{ name := "+", kind := .primitive, arity := some ⟨2, 1⟩ }, by rfl, by decide, by decide⟩
    obtain ⟨-, hcall⟩ := (sizeBox_expands summedCutsContext (sizeProgram summedCutsContext summedCuts)
      ⟨2, ⟨1, 11⟩, false⟩ "+" summand rfl).1 ⟨2, 1⟩ [⟨0, 1⟩] ⟨by decide +kernel, hbound⟩ (by decide +kernel)
      (by decide +kernel)
    obtain ⟨row, result, hrow, hresult, hsized⟩ := hcall (by decide)
    obtain rfl : ⟨1, 2⟩ = row := Option.some.inj hrow
    obtain rfl : ⟨1, 1⟩ = result := Option.some.inj hresult
    exact hsized
  · obtain ⟨-, -, hsum⟩ := (sizeBox_expands summedCutsContext (sizeProgram summedCutsContext summedCuts)
      ⟨4, ⟨1, 17⟩, false⟩ "sum" cuts rfl).2 _ _ ⟨1, 0⟩ (.finite false (3 * Binary64.one)) 3 rfl
      (by decide +kernel) (by decide +kernel) (by decide +kernel)
    obtain ⟨row, result, hrow, hresult, hsized⟩ := hsum (.inl rfl)
    obtain rfl : ⟨3, 0⟩ = row := Option.some.inj hrow
    obtain rfl : ⟨3, 0⟩ = result := Option.some.inj hresult
    exact hsized

end Sizing

end Patchbay
