import Patchbay.Proofs.Parser.Semicolons
import Patchbay.Proofs.Parser.Surroundings

/-!
# Boxes are read alike in all surroundings

What is read alone is read in surroundings too, up to the numbers of nodes, as long as reading alone leaves tokens.
Boxes that are read to the end of the tokens without a finding are read alike if no box goes on with what follows.
-/

namespace Patchbay.Parser

open Surroundings State Job

namespace Job

/-- The job with all numbers of nodes raised by `k`. -/
def shift (k : Nat) : Job → Job
  | .expression par => .expression par
  | .blocks box => .blocks (box.shift k)
  | .composition least par => .composition least par
  | .compositionRest least par left => .compositionRest least par (left.shift k)
  | .arithmetic least => .arithmetic least
  | .arithmeticRest least left => .arithmeticRest least (left.shift k)
  | .primary => .primary
  | .arguments name opening args => .arguments name opening (Box.shiftAll k args)
  | .localDefinitions locals => .localDefinitions (Definition.shiftAll k locals)
  | .definition name => .definition name

/-- What a job gives, with all numbers of nodes raised by `k`. -/
def shiftResult (k : Nat) : (job : Job) → job.Result → (job.shift k).Result
  | .expression _, box => box.shift k
  | .blocks _, box => box.shift k
  | .composition _ _, box => box.shift k
  | .compositionRest _ _ _, box => box.shift k
  | .arithmetic _, box => box.shift k
  | .arithmeticRest _ _, box => box.shift k
  | .primary, box => box.shift k
  | .arguments _ _ _, read => (Box.shiftAll k read.1, read.2)
  | .localDefinitions _, locals => Definition.shiftAll k locals
  | .definition _, e => e.shift k

end Job

variable {c : Surroundings} {d : Int} {s t : State}

/-! ## Steps -/

variable {token : Token} {rest : List Token}

theorem opened_embed (hrest : s.rest = token :: rest) (h : c.Lasts s.advance) :
    (c.embed s).advance.advance.count = c.embed s.advance.advance.count := by
  rw [advance_embed (.inr (by simp [hrest])), advance_embed h, count_embed]

theorem lasts_of_cons (h : s.rest = token :: rest) : c.Lasts s := .inr (by simp [h])

theorem lasts_of_atMark {text : String} (h : s.atMark text) : c.Lasts s := by
  obtain ⟨token, rest, hrest, -⟩ := exists_of_atMark h
  exact lasts_of_cons hrest

theorem rest_embed (h : s.rest = token :: rest) : (c.embed s).rest = token :: (rest ++ c.tail) := by
  simp [embed, h]

/-- A token that is a box by itself is one in surroundings. -/
theorem LeafAt.embed (hrest : s.rest = token :: rest) (h : LeafAt token s) (hc : c.Holds s.advance) :
    LeafAt token (c.embed s) := by
  have hopen (hs : s.advance.atMark "(" = false) : (c.embed s).advance.atMark "(" = false := by
    rw [advance_embed (lasts_of_cons hrest)]
    exact atMark_embed_eq_false hc hs fun _ ht => ht.opening
  rcases h with ⟨hname, hs⟩ | h | h | ⟨hbox, hnegative, hs⟩
  · exact .inl ⟨hname, hopen hs⟩
  · exact .inr (.inl h)
  · exact .inr (.inr (.inl h))
  · refine .inr (.inr (.inr ⟨hbox, ?_, hs.imp id hopen⟩))
    rw [hrest] at hnegative
    rw [rest_embed hrest]
    -- If no token is left, the one that follows is no number.
    cases rest with
    | cons number rest => exact hnegative
    | nil =>
      have hnext := hc.stop (p := fun t => t.kind ≠ .number) (by simp [hrest]) fun _ ht => ht.number
      have hadvance : (c.embed s.advance).rest = c.tail := by simp [Surroundings.embed, hrest]
      rw [hadvance] at hnext
      cases htail : c.tail with
      | nil => rfl
      | cons t tail => simp [startsNegative, hnext t (by simp [htail])]

theorem CallAt.embed {name : Token} (hrest : s.rest = name :: rest) (h : CallAt name s) : CallAt name (c.embed s) := by
  refine ⟨h.1, ?_⟩
  rw [advance_embed (lasts_of_cons hrest), atMark_embed (lasts_of_atMark h.2)]
  exact h.2

/-! ## Definitions -/

section

variable {name : Token}

theorem headerUnreadable_embed (hreadable : (header s).2.1 = false) (hs : c.Lasts (header s).2.2)
    (hstops : c.Stops (header s).2.2) :
    Gives d (.definition name) (c.embed s) ((definitionOf name s true none ⟨0, 0⟩).shift c.ids)
      (c.embed (header s).2.2.recover) := by
  have hread : Reading d (.definition name) (c.embed s) _ _ _ :=
    .headerUnreadable (by rw [header_embed hs]; exact hreadable)
  rw [header_embed hs, recover_embed hstops, ← Option.map_none, definitionOf_embed hs] at hread
  exact ⟨_, hread⟩

theorem headerUnended_embed (hreadable : (header s).2.1)
    (hequals : (header s).2.2.peek.any (·.isOperator "=") = false) (hs : c.Lasts (header s).2.2)
    (hstops : c.Stops (header s).2.2) :
    Gives d (.definition name) (c.embed s) ((definitionOf name s true none ⟨0, 0⟩).shift c.ids)
      (c.embed ((header s).2.2.reportNext (.missingEquals name.text (header s).2.2.peek)).recover) := by
  have hread : Reading d (.definition name) (c.embed s) _ _ _ :=
    .headerUnended (by rw [header_embed hs]; exact hreadable)
    (by rw [header_embed hs, peek_embed hs]; exact hequals)
  rw [header_embed hs, peek_embed hs, reportNext_embed hs, recover_embed (s := reportNext _ _) hstops,
    ← Option.map_none, definitionOf_embed hs] at hread
  exact ⟨_, hread⟩

variable {body : Box} (hreadable : (header s).2.1)
  (hequals : (header s).2.2.peek.any (·.isOperator "=")) (hs : c.Lasts (header s).2.2)
  (hbody : Gives d (.expression true) (c.embed (header s).2.2.advance) (body.shift c.ids) (c.embed t))

include hreadable hequals hs hbody

theorem bodyInvalid_embed (hinvalid : body.invalid) (hstops : c.Stops t) :
    Gives d (.definition name) (c.embed s)
      ((definitionOf name s true (some body) (t.recover.place none)).shift c.ids) (c.embed t.recover) := by
  obtain ⟨_, hbody⟩ := hbody
  rw [← advance_embed hs] at hbody
  have hread : Reading d (.definition name) (c.embed s) _ _ _ := .bodyInvalid (by rw [header_embed hs]; exact hreadable)
    (by rw [header_embed hs, peek_embed hs]; exact hequals) (by rw [header_embed hs]; exact hbody) (by simp [hinvalid])
  rw [recover_embed hstops, place_embed, ← Option.map_some, definitionOf_embed hs] at hread
  exact ⟨_, hread⟩

/-- Up to its end a definition is read alike. -/
theorem definition_until_end (name : Token) (hvalid : body.invalid = false) :
    Gives d (.definition name) (c.embed s)
      ((definitionOf name s (!(definitionEnd name (c.embed t)).1) (some body)
        ((definitionEnd name (c.embed t)).2.place none)).shift c.ids) (definitionEnd name (c.embed t)).2 := by
  obtain ⟨_, hbody⟩ := hbody
  rw [← advance_embed hs] at hbody
  have hread : Reading d (.definition name) (c.embed s) _ _ _ := .definition (by rw [header_embed hs]; exact hreadable)
    (by rw [header_embed hs, peek_embed hs]; exact hequals) (by rw [header_embed hs]; exact hbody) (by simp [hvalid])
  rw [← Option.map_some, definitionOf_embed hs] at hread
  exact ⟨_, hread⟩

theorem definition_embed (hvalid : body.invalid = false) (ht : c.Lasts t)
    (hends : c.Ends ("definition of '" ++ name.text ++ "'") t) :
    Gives d (.definition name) (c.embed s)
      ((definitionOf name s (!(definitionEnd name t).1) (some body) ((definitionEnd name t).2.place none)).shift c.ids)
      (c.embed (definitionEnd name t).2) := by
  have hread := definition_until_end hreadable hequals hs hbody name hvalid
  have hend : definitionEnd name (c.embed t) = ((definitionEnd name t).1, c.embed (definitionEnd name t).2) :=
    endStatement_embed ht hends
  rwa [hend, place_embed] at hread

end

/-! ## Jobs -/

/-- Where a job ends, reading alone leaves tokens; if it reads boxes, they may also end with the tokens. -/
def Job.Keeps (c : Surroundings) : Job → State → Prop
  | .localDefinitions _, t => c.Lasts t
  | .definition _, t => c.Lasts t
  | _, t => c.Holds t

/-- Reading in surroundings gives what reading alone gives. -/
theorem Reading.carried {job : Job} {r : job.Result} {b : Braces} (h : Reading d job s r t b) (hc : job.Keeps c t) :
    Gives d (job.shift c.ids) (c.embed s) (job.shiftResult c.ids r) (c.embed t) := by
  induction h with
  | @nested par s hdeep =>
    have hs : c.Lasts s.enter := Holds.reported hc rfl (by simp [leave, fail])
    have hread : Reading d (.expression par) (c.embed s) _ _ _ := .nested hdeep
    have henter : (c.embed s).enter = c.embed s.enter := rfl
    rw [henter, peek_embed hs, fail_embed hs] at hread
    exact ⟨_, hread⟩
  | @expression par s box t r u _ _ hdeep hbox hblocks ih ih' =>
    have hu : c.Holds u := hc
    obtain ⟨_, hread⟩ := ih (hu.of_extends hblocks.extends)
    obtain ⟨_, hread'⟩ := ih' hu
    exact ⟨_, Reading.expression (s := c.embed s) hdeep hread hread'⟩
  | blocksDone h =>
    exact ⟨_, .blocksDone (h.imp (by simp) fun h => Holds.stop hc h fun _ ht => ht.block)⟩
  | @blockMissing box s keyword rest hvalid hrest hkeyword hopen =>
    have hs : c.Lasts s.advance := Holds.reported hc rfl (by simp [fail])
    have hadvance := advance_embed (c := c) (lasts_of_cons hrest)
    have hread : Reading d (.blocks (box.shift c.ids)) (c.embed s) _ _ _ := .blockMissing (by simp [hvalid])
      (rest_embed hrest) hkeyword (by rw [hadvance, atMark_embed hs]; exact hopen)
    rw [hadvance, peek_embed hs, fail_embed hs] at hread
    exact ⟨_, hread⟩
  | @blockUnclosed box s keyword rest locals t _ hvalid hrest hkeyword hopen hlocals hend ih =>
    dsimp only [shift, shiftResult] at ih ⊢
    have ht : c.Lasts t := Holds.reported hc rfl (by simp)
    have hs : c.Lasts s.advance := lasts_of_atMark hopen
    have hadvance := advance_embed (c := c) (lasts_of_cons hrest)
    obtain ⟨_, hread⟩ := ih ht
    rw [← opened_embed hrest hs] at hread
    have hread' : Reading d (.blocks (box.shift c.ids)) (c.embed s) _ _ _ := .blockUnclosed (by simp [hvalid])
      (rest_embed hrest) hkeyword (by rw [hadvance, atMark_embed hs]; exact hopen) hread
      (by simpa [Surroundings.embed, hend] using ht.resolve_right (by simp [hend]))
    rw [hadvance, peek_embed hs, reportNext_embed ht, advance_embed hs, newMark_embed] at hread'
    exact ⟨_, by rw [Box.shift]; exact hread'⟩
  | @block box s keyword rest locals t r u _ _ hvalid hrest hkeyword hopen hlocals hend hmore ih ih' =>
    dsimp only [shift, shiftResult] at ih ih' ⊢
    have ht : c.Lasts t := .inr hend
    have hs : c.Lasts s.advance := lasts_of_atMark hopen
    have hadvance := advance_embed (c := c) (lasts_of_cons hrest)
    obtain ⟨_, hread⟩ := ih ht
    obtain ⟨_, hread'⟩ := ih' hc
    have hmark : (c.embed s).advance.advance.newMark keyword = (s.advance.advance.newMark keyword).shift c.ids := by
      rw [hadvance, advance_embed hs, newMark_embed]
    rw [← opened_embed hrest hs] at hread
    rw [← advance_embed ht, Box.shift, ← hmark] at hread'
    exact ⟨_, .block (by simp [hvalid]) (rest_embed hrest) hkeyword (by rw [hadvance, atMark_embed hs]; exact hopen)
      hread (by simp [Surroundings.embed, hend]) hread'⟩
  | composition hleft hmore ih ih' =>
    obtain ⟨_, hread⟩ := ih (Holds.of_extends hc hmore.extends)
    obtain ⟨_, hread'⟩ := ih' hc
    exact ⟨_, .composition hread hread'⟩
  | compositionDone h =>
    refine ⟨_, .compositionDone (h.imp (by simp) fun h => Holds.stop hc h fun token ht op hop => ?_)⟩
    exact absurd ((compositionOf?_eq_some_iff _ token op).mp hop).kind ht.operator
  | @compose least par left s token rest op right t r u _ _ hvalid hrest hop hleast hright hmore ih ih' =>
    dsimp only [shift, shiftResult] at ih ih' ⊢
    obtain ⟨_, hread⟩ := ih (Holds.of_extends hc ((extends_count _).trans hmore.extends))
    obtain ⟨_, hread'⟩ := ih' hc
    rw [← advance_embed (lasts_of_cons hrest)] at hread
    rw [← count_embed, Box.shift] at hread'
    exact ⟨_, .compose (by simp [hvalid]) (rest_embed hrest) hop hleast hread
      (by rw [newMark_embed, Box.invalid_shift]; exact hread')⟩
  | @arithmetic _ _ box t _ _ _ _ hbox hmore ih ih' =>
    dsimp only [shift, shiftResult] at ih ih' ⊢
    have hprimes : c.Holds (primes box t).2 := Holds.of_extends hc hmore.extends
    obtain ⟨_, hread⟩ := ih (hprimes.of_extends (extends_primes box t))
    obtain ⟨_, hread'⟩ := ih' hc
    exact ⟨_, .arithmetic hread (by rw [primes_embed box hprimes]; exact hread')⟩
  | arithmeticDone h =>
    refine ⟨_, .arithmeticDone (h.imp (by simp) fun h => Holds.stop hc h fun token ht p hp => ?_)⟩
    exact absurd ((arithmeticOf?_eq_some_iff token p).mp hp).kind ht.operator
  | @operate least left s token rest precedence right t r u _ _ hvalid hrest hop hleast hright hmore ih ih' =>
    dsimp only [shift, shiftResult] at ih ih' ⊢
    obtain ⟨_, hread⟩ := ih (Holds.of_extends hc ((extends_arithmeticBox _ _ _ _).trans hmore.extends))
    obtain ⟨_, hread'⟩ := ih' hc
    rw [← advance_embed (lasts_of_cons hrest)] at hread
    exact ⟨_, .operate (by simp [hvalid]) (rest_embed hrest) hop hleast hread
      (by rw [arithmeticBox_embed]; exact hread')⟩
  | @ended s hrest =>
    have hs : c.Lasts s := Holds.reported hc rfl (by simp [fail])
    have hread : Reading d .primary (c.embed s) _ _ _ :=
      .ended (by simpa [Surroundings.embed, hrest] using hs.resolve_right (by simp [hrest]))
    rw [fail_embed hs] at hread
    exact ⟨_, hread⟩
  | @unexpected s token rest hrest h =>
    have hread : Reading d .primary (c.embed s) _ _ _ := .unexpected (rest_embed hrest) h
    rw [fail_embed (lasts_of_cons hrest)] at hread
    exact ⟨_, hread⟩
  | @leaf s token rest hrest h =>
    have hs : c.Holds s.advance := Holds.of_eq hc (rest_leaf token s) (findings_leaf token s)
    have hread : Reading d .primary (c.embed s) _ _ _ := .leaf (rest_embed hrest) (h.embed hrest hs)
    rw [leaf_embed (lasts_of_cons hrest)] at hread
    exact ⟨_, hread⟩
  | @negative s sign number rest hrest hsign hnumber =>
    have hread : Reading d .primary (c.embed s) _ _ _ := .negative (rest_embed hrest) hsign hnumber
    rw [negativeNumber_embed (lasts_of_cons hrest) (lasts_of_cons (rest_advance_of_rest hrest))] at hread
    exact ⟨_, hread⟩
  | parenthesisInvalid hrest hopen hinner hinvalid ih =>
    dsimp only [shift, shiftResult] at ih ⊢
    obtain ⟨_, hread⟩ := ih hc
    rw [← advance_embed (lasts_of_cons hrest)] at hread
    exact ⟨_, .parenthesisInvalid (rest_embed hrest) hopen hread (by simpa using hinvalid)⟩
  | @parenthesisUnclosed s opening rest inner t _ hrest hopen hinner hvalid hclose ih =>
    dsimp only [shift, shiftResult] at ih ⊢
    have ht : c.Lasts t := Holds.reported hc rfl (by simp [fail])
    obtain ⟨_, hread⟩ := ih (.inl ht)
    rw [← advance_embed (lasts_of_cons hrest)] at hread
    have hread' : Reading d .primary (c.embed s) _ _ _ := .parenthesisUnclosed (rest_embed hrest) hopen hread
      (by simpa using hvalid) (by rw [atMark_embed ht]; exact hclose)
    rw [peek_embed ht, fail_embed ht] at hread'
    exact ⟨_, hread'⟩
  | @parenthesis s opening rest inner t _ hrest hopen hinner hvalid hclose ih =>
    dsimp only [shift, shiftResult] at ih ⊢
    have ht : c.Lasts t := lasts_of_atMark hclose
    obtain ⟨_, hread⟩ := ih (.inl ht)
    rw [← advance_embed (lasts_of_cons hrest)] at hread
    have hread' : Reading d .primary (c.embed s) _ _ _ := .parenthesis (rest_embed hrest) hopen hread
      (by simpa using hvalid) (by rw [atMark_embed ht]; exact hclose)
    rw [advance_embed ht] at hread'
    exact ⟨_, hread'⟩
  | @callEmpty s name rest hrest h hclose =>
    have hs : c.Lasts s.advance.advance.count := lasts_of_atMark hclose
    have hopened := opened_embed (c := c) hrest (lasts_of_atMark h.2)
    have hread : Reading d .primary (c.embed s) _ _ _ := .callEmpty (rest_embed hrest) (h.embed hrest)
      (by rw [hopened, atMark_embed hs]; exact hclose)
    have hmark : (c.embed s).advance.advance.newMark name = (s.advance.advance.newMark name).shift c.ids := by
      rw [advance_embed (lasts_of_cons hrest), advance_embed (lasts_of_atMark h.2), newMark_embed]
    rw [hopened, reportNext_embed hs, advance_embed (s := reportNext (count _) _) hs, hmark] at hread
    exact ⟨_, by rw [shiftResult, Box.shift, Box.shiftAll]; exact hread⟩
  | @call s name rest args valid t _ hrest h hclose hargs ih =>
    dsimp only [shift, shiftResult] at ih ⊢
    have hs : c.Holds s.advance.advance.count := Holds.of_extends hc hargs.extends
    have hadvance := advance_embed (c := c) (lasts_of_cons hrest)
    have hlasts : c.Lasts s.advance := lasts_of_atMark h.2
    have hopened := opened_embed hrest hlasts
    obtain ⟨_, hread⟩ := ih hc
    rw [← hopened, Box.shiftAll] at hread
    have hread' : Reading d .primary (c.embed s) _ _ _ := .call (rest_embed hrest) (h.embed hrest)
      (by rw [hopened]; exact atMark_embed_eq_false hs hclose fun _ ht => ht.closing)
      (by rw [hadvance, peek_embed hlasts, place_embed, ← hadvance]; exact hread)
    rw [hadvance, advance_embed hlasts, newMark_embed] at hread'
    exact ⟨_, by rw [Box.shift]; exact hread'⟩
  | @argumentInvalid _ _ args _ argument _ _ hargument hinvalid ih =>
    dsimp only [shift, shiftResult] at ih ⊢
    obtain ⟨_, hread⟩ := ih hc
    rw [Box.shiftAll_concat]
    exact ⟨_, .argumentInvalid hread (by simpa using hinvalid)⟩
  | @argumentsMalformed name opening args s argument t _ hargument hvalid h ih =>
    dsimp only [shift, shiftResult] at ih ⊢
    have ht : c.Lasts t := Holds.reported hc rfl (by simp)
    obtain ⟨_, hread⟩ := ih (.inl ht)
    rw [Box.shiftAll_concat, ← reportNext_embed ht, ← peek_embed ht]
    exact ⟨_, .argumentsMalformed hread (by simpa using hvalid) (by rw [ht.head?]; exact h)⟩
  | @argumentsMore name opening args s argument t comma rest r u _ _ hargument hvalid hrest hcomma hmore ih ih' =>
    dsimp only [shift, shiftResult] at ih ih' ⊢
    have ht : c.Lasts t := lasts_of_cons hrest
    obtain ⟨_, hread⟩ := ih (.inl ht)
    obtain ⟨_, hread'⟩ := ih' hc
    rw [Box.shiftAll_concat, ← advance_embed ht] at hread'
    exact ⟨_, .argumentsMore hread (by simpa using hvalid) (rest_embed hrest) hcomma hread'⟩
  | @argumentsEnd name opening args s argument t closing rest _ hargument hvalid hrest hclosing ih =>
    dsimp only [shift, shiftResult] at ih ⊢
    have ht : c.Lasts t := lasts_of_cons hrest
    obtain ⟨_, hread⟩ := ih (.inl ht)
    rw [Box.shiftAll_concat, ← advance_embed ht]
    exact ⟨_, .argumentsEnd hread (by simpa using hvalid) (rest_embed hrest) hclosing⟩
  | localsDone h => exact ⟨_, .localsDone (by rw [Lasts.head? hc]; exact h)⟩
  | @localsSkip locals s token rest r u _ hrest hbrace hname hmore ih =>
    have hs : c.Lasts (s.report token.start (.unexpectedLocal token)).recover := Lasts.of_extends hc hmore.extends
    obtain ⟨_, hread⟩ := ih hc
    rw [← recover_embed hs.stops, ← report_embed] at hread
    exact ⟨_, .localsSkip (rest_embed hrest) hbrace hname hread⟩
  | @localsMore locals s name rest e t r u _ _ hrest hname hdefinition hmore ih ih' =>
    dsimp only [shift, shiftResult] at ih ih' ⊢
    obtain ⟨_, hread⟩ := ih (Lasts.of_extends hc hmore.extends)
    obtain ⟨_, hread'⟩ := ih' hc
    exact ⟨_, .localsMore (rest_embed hrest) hname hread (Definition.shiftAll_concat c.ids locals e ▸ hread')⟩
  | headerUnreadable hreadable =>
    have hs : c.Lasts (recover _) := hc
    exact headerUnreadable_embed hreadable (hs.of_extends (extends_recover _)) hs.stops
  | headerUnended hreadable hequals =>
    have hs : c.Lasts (recover _) := hc
    exact headerUnended_embed hreadable hequals
      (hs.of_extends ((extends_reportNext _ _ rfl).trans (extends_recover _))) hs.stops
  | bodyInvalid hreadable hequals hbody hinvalid ih =>
    have ht : c.Lasts (recover _) := hc
    have ht' := ht.of_extends (extends_recover _)
    exact bodyInvalid_embed hreadable hequals (ht'.of_extends ((extends_advance _).trans hbody.extends))
      (ih (.inl ht')) hinvalid ht.stops
  | definition hreadable hequals hbody hvalid ih =>
    have ht : c.Lasts (endStatement _ _).2 := hc
    have ht' := ht.of_extends (extends_endStatement _ _)
    exact definition_embed hreadable hequals (ht'.of_extends ((extends_advance _).trans hbody.extends))
      (ih (.inl ht')) hvalid ht' ht.ends

end Patchbay.Parser
