import Patchbay.Proofs.Scope.Lexical

/-!
# Scopes in a list

Every scope of a program stands after its parent, so looking upwards ends. What is seen from a scope depends only on
the scopes up to it. So it stays the same while scopes are added behind it, and while names are bound in these.
-/

namespace Patchbay.ScopeTree

/-- Every scope stands after its parent. -/
def Ordered (t : ScopeTree) : Prop :=
  ∀ i s, t.get? i = some s → ∀ parent, s.parent = some parent → ∃ j : Nat, parent = j ∧ j < i

/-- The second tree has the scopes of the first one, and possibly more behind them. -/
structure Grows (t u : ScopeTree) : Prop where
  size : t.size ≤ u.size
  get? : ∀ i, i < t.size → u.get? i = t.get? i

theorem Grows.refl (t : ScopeTree) : t.Grows t := ⟨Nat.le_refl _, fun _ _ => rfl⟩

variable {i scope : Nat} {s : Scope} {t u : ScopeTree}

theorem Grows.trans {v : ScopeTree} (h : t.Grows u) (h' : u.Grows v) : t.Grows v :=
  ⟨Nat.le_trans h.size h'.size,
    fun i hi => (h'.get? i (Nat.lt_of_lt_of_le hi h.size)).trans (h.get? i hi)⟩

theorem lt_size_of_get? (h : t.get? i = some s) : i < t.size := by
  obtain ⟨hi, -⟩ := List.getElem?_eq_some_iff.mp h
  exact hi

theorem exists_get? (h : i < t.size) : ∃ s, t.get? i = some s :=
  ⟨_, List.getElem?_eq_getElem h⟩

/-! ## Looking upwards -/

theorem place?_ofNat (h : i < t.size) : t.place? (i : Int) = some i :=
  if_pos h

theorem path_none (t : ScopeTree) (fuel : Nat) : t.path fuel none = ([], none) := by
  cases fuel with
  | zero => rfl
  | succ fuel => rfl

theorem path_some (h : t.get? i = some s) (fuel : Nat) :
    (t.path (fuel + 1) (some (i : Int))).1 = s :: (t.path fuel s.parent).1 := by
  rw [path, place?_ofNat (lt_size_of_get? h), Option.bind_some, h]

/-- The scopes upwards from one depend only on the scopes up to it, and not on the fuel. -/
theorem path_congr (ht : t.Ordered) (i : Nat) (hi : i < t.size) (hu : ∀ k, k ≤ i → u.get? k = t.get? k) (f g : Nat)
    (hf : i < f) (hg : i < g) : (u.path f (some (i : Int))).1 = (t.path g (some (i : Int))).1 := by
  -- On the scope: its parent stands before it, so the fuel is enough for the whole way up.
  induction i using Nat.strongRecOn generalizing f g with
  | ind i ih =>
    obtain ⟨s, hs⟩ := exists_get? hi
    obtain ⟨f, rfl⟩ : ∃ k, f = k + 1 := ⟨f - 1, by omega⟩
    obtain ⟨g, rfl⟩ : ∃ k, g = k + 1 := ⟨g - 1, by omega⟩
    have hs' : u.get? i = some s := (hu i (Nat.le_refl i)).trans hs
    rw [path_some hs, path_some hs']
    cases hparent : s.parent with
    | none => rw [path_none, path_none]
    | some parent =>
      obtain ⟨j, rfl, hj⟩ := ht i s hs parent hparent
      rw [ih j hj (by omega) (fun k hk => hu k (by omega)) f g (by omega) (by omega)]

theorem above_some (ht : t.Ordered) (h : t.get? i = some s) : t.above (some (i : Int)) = s :: t.above s.parent := by
  unfold above
  rw [path_some h]
  cases hparent : s.parent with
  | none => rw [path_none, path_none]
  | some parent =>
    have hi := lt_size_of_get? h
    obtain ⟨j, rfl, hj⟩ := ht i s h parent hparent
    rw [path_congr ht j (by omega) (fun _ _ => rfl) t.size (t.size + 1) (by omega) (by omega)]

theorem above_none (t : ScopeTree) : t.above none = [] := rfl

/-- What is seen from a scope stays the same while scopes are added behind it. -/
theorem find?_of_grows (ht : t.Ordered) (h : t.Grows u) (hi : i < t.size) (name : String) :
    u.find? (some (i : Int)) name = t.find? (some (i : Int)) name := by
  have hsize := h.size
  unfold find? above
  rw [path_congr ht i hi (fun k hk => h.get? k (by omega)) _ (t.size + 1) (by omega) (by omega)]

/-! ## Adding and binding -/

theorem size_add (t : ScopeTree) (parent : Option Int) : (t.add parent).size = t.size + 1 := by
  simp [size, add]

theorem get?_add_of_lt (h : i < t.size) (parent : Option Int) : (t.add parent).get? i = t.get? i :=
  List.getElem?_append_left h

theorem get?_add_size (t : ScopeTree) (parent : Option Int) :
    (t.add parent).get? t.size = some ⟨parent, .empty⟩ := by
  simp [get?, add, size]

theorem grows_add (t : ScopeTree) (parent : Option Int) : t.Grows (t.add parent) :=
  ⟨by rw [size_add]; omega, fun _ hi => get?_add_of_lt hi parent⟩

theorem Ordered.add (ht : t.Ordered) (h : scope < t.size) : (t.add (some (scope : Int))).Ordered := by
  intro i s hs parent hparent
  have hi := lt_size_of_get? hs
  rw [size_add] at hi
  by_cases hlt : i < t.size
  · rw [get?_add_of_lt hlt] at hs
    exact ht i s hs parent hparent
  · obtain rfl : i = t.size := by omega
    rw [get?_add_size] at hs
    obtain rfl := Option.some.inj hs
    obtain rfl : (scope : Int) = parent := Option.some.inj hparent
    exact ⟨scope, rfl, h⟩

theorem size_bind (t : ScopeTree) (scope : Nat) (symbol : Symbol) : (t.bind scope symbol).size = t.size := by
  simp [size, bind]

theorem get?_bind_of_ne (h : i ≠ scope) (symbol : Symbol) : (t.bind scope symbol).get? i = t.get? i := by
  simp [get?, bind, Ne.symm h]

theorem get?_bind_self (h : t.get? scope = some s) (symbol : Symbol) :
    (t.bind scope symbol).get? scope = some ⟨s.parent, s.bindings.insert symbol.name symbol⟩ := by
  have h' : t.scopes[scope]? = some s := h
  simp [get?, bind, h']

theorem Ordered.bind (ht : t.Ordered) (scope : Nat) (symbol : Symbol) : (t.bind scope symbol).Ordered := by
  intro i s hs parent hparent
  by_cases hi : i = scope
  · subst hi
    obtain ⟨old, hold⟩ := exists_get? (size_bind t i symbol ▸ lt_size_of_get? hs)
    rw [get?_bind_self hold] at hs
    obtain rfl := Option.some.inj hs
    exact ht i old hold parent hparent
  · rw [get?_bind_of_ne hi] at hs
    exact ht i s hs parent hparent

/-! ## Seeing an environment -/

/-- What is seen from a scope is what the environment binds. -/
def Sees (t : ScopeTree) (scope : Nat) (env : Lexical.Env) : Prop :=
  ∀ name, t.find? (some (scope : Int)) name = env.lookup name

variable {env : Lexical.Env} {bindings : Table String Symbol}

theorem Sees.of_grows (h : t.Sees scope env) (ht : t.Ordered) (hgrows : t.Grows u)
    (hscope : scope < t.size) : u.Sees scope env :=
  fun name => (find?_of_grows ht hgrows hscope name).trans (h name)

/-- From a scope its own names are seen first, then those seen from its parent. -/
theorem Sees.cons {t : ScopeTree} (ht : t.Ordered) {scope parent : Nat}
    {frame : Lexical.Frame}
    (hget : t.get? scope = some ⟨some (parent : Int), bindings⟩)
    (hframe : ∀ name, bindings.get? name = frame name) (h : t.Sees parent env) :
    t.Sees scope (frame :: env) := by
  intro name
  have habove := above_some ht hget
  unfold find?
  rw [habove, List.findSome?_cons, hframe name]
  cases hname : frame name with
  | none =>
    rw [Lexical.Env.lookup, List.findSome?_cons, hname]
    exact h name
  | some symbol =>
    rw [Lexical.Env.lookup, List.findSome?_cons, hname]

/-- The outermost scope. -/
theorem Sees.root (ht : t.Ordered) (hget : t.get? scope = some ⟨none, bindings⟩) :
    t.Sees scope [bindings.get?] := by
  intro name
  have habove := above_some ht hget
  unfold find?
  rw [habove, above_none]
  rfl

end Patchbay.ScopeTree
