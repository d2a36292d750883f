import ApiDescription.Proofs.TypeRef.Substitution

/-!
# Variables bound in cycles

Where a variable is bound to a variable, that one is the next of a chain, and a chain may come back to
itself. Resolution follows the chain up to the variable at which it enters the cycle, goes round once
and stops there, so that a variable on the cycle stays as it is. That a variable stands elsewhere in a
type, or is met while other bindings are followed, makes no difference to this.

Results:
* `resolve_free_of_reaches`: a chain that leads to a free variable resolves to it.
* `resolve_var_of_entersAt`: a chain resolves to the variable at which it enters a cycle.
* `resolve_var_eq_self_iff`: a variable resolves to itself iff it is unbound or on a cycle.
* `resolve_freeAll`: the variables on cycles might as well be unbound.
* `resolve_circular`: all of this for one context.
-/

namespace ApiDescription.TypeContext

open Relation

variable {context : TypeContext} {w x y z c : String} {t bound : TypeRef}

/-! ## Chains of variables -/

/-- One variable is bound to another, as it is. -/
def Follows (context : TypeContext) (x y : String) : Prop :=
  context.lookup? x = some (.var y)

/-- The chain of a variable comes back to it. -/
def OnCycle (context : TypeContext) (x : String) : Prop :=
  TransGen context.Follows x x

/-- The chain of a variable comes to a cycle. -/
def RunsIntoCycle (context : TypeContext) (w : String) : Prop :=
  ∃ c, ReflTransGen context.Follows w c ∧ context.OnCycle c

/-- The chain of `w` enters a cycle at `c`: up to there it is on none. -/
def EntersAt (context : TypeContext) (w c : String) : Prop :=
  context.OnCycle c ∧ ReflTransGen (fun x y => ¬ context.OnCycle x ∧ context.Follows x y) w c

theorem Follows.unique (h : context.Follows x y) (h' : context.Follows x z) : y = z :=
  TypeRef.var.inj (Option.some.inj (h.symm.trans h'))

theorem Follows.of_dependsOn (h : context.Follows x y) (h' : context.DependsOn x z) :
    context.Follows x z := by
  obtain ⟨bound, hbound, hz⟩ := h'
  obtain rfl := Option.some.inj (h.symm.trans hbound)
  obtain rfl := TypeRef.mentions_var_iff.mp hz
  exact h

theorem follows_free (context : TypeContext) (x : String) :
    (context.free x).Follows = Avoiding context.Follows x := by
  funext a b
  rw [Avoiding, Follows, Follows, lookup?_free]
  by_cases h : x = a
  · simp [h]
  · simp [h, Ne.symm h]

theorem reaches_of_reaches_free (h : ReflTransGen (context.free x).Follows y z) :
    ReflTransGen context.Follows y z := by
  rw [follows_free] at h
  exact reaches_of_avoiding h

theorem resolve_var_of_follows (h : context.Follows x y) :
    context.resolve (.var x) = (context.free x).resolve (.var y) := by
  rw [resolve_var, h]

/-- On the way to a cycle every dependency is a step of the chain. -/
theorem RunsIntoCycle.follows (h : context.RunsIntoCycle x) (hy : context.DependsOn x y) :
    context.Follows x y ∧ context.RunsIntoCycle y := by
  obtain ⟨c, hpath, hc⟩ := h
  have hnext : ∃ z, context.Follows x z ∧ context.RunsIntoCycle z := by
    rcases hpath.cases_head with rfl | ⟨z, hstep, hrest⟩
    · obtain ⟨z, hstep, hback⟩ := TransGen.head'_iff.mp hc
      exact ⟨z, hstep, x, hback, hc⟩
    · exact ⟨z, hstep, c, hrest, hc⟩
  obtain ⟨z, hz, hruns⟩ := hnext
  have hfollows : context.Follows x y := hz.of_dependsOn hy
  exact ⟨hfollows, hz.unique hfollows ▸ hruns⟩

theorem RunsIntoCycle.reaches (h : context.RunsIntoCycle x)
    (hpath : ReflTransGen context.DependsOn x y) : ReflTransGen context.Follows x y := by
  induction hpath using ReflTransGen.head_induction_on with
  | refl => exact .refl
  | head hstep _ ih =>
    obtain ⟨hfollows, hruns⟩ := h.follows hstep
    exact .head hfollows (ih hruns)

theorem EntersAt.runsIntoCycle (h : context.EntersAt w c) : context.RunsIntoCycle w :=
  ⟨c, ReflTransGen.mono (fun _ _ hstep => hstep.2) _ _ h.2, h.1⟩

/-- A chain that comes to a cycle enters one. -/
theorem RunsIntoCycle.exists_entersAt (h : context.RunsIntoCycle w) : ∃ c, context.EntersAt w c := by
  obtain ⟨c, hpath, hc⟩ := h
  induction hpath using ReflTransGen.head_induction_on with
  | refl => exact ⟨c, hc, .refl⟩
  | @head w w' hstep _ ih =>
    obtain ⟨c', hc', hrest⟩ := ih
    by_cases hw : context.OnCycle w
    · exact ⟨w, hw, .refl⟩
    · exact ⟨c', hc', .head ⟨hw, hstep⟩ hrest⟩

/-! ## What chains resolve to -/

/-- A chain that leads to a free variable resolves to it. -/
theorem resolve_free_of_reaches (context : TypeContext) {x y : String}
    (h : ReflTransGen context.Follows y x) : (context.free x).resolve (.var y) = .var x := by
  by_cases hyx : y = x
  · subst hyx
    rw [resolve_var, lookup?_free, if_pos rfl]
  · -- the chain leaves `y` once more before it comes to `x`, and need not come back to `y` again
    obtain ⟨z, hz, hrest⟩ := exists_last_step h hyx
    rw [← follows_free] at hrest
    have hfree : (context.free x).Follows y z := by
      rw [follows_free]
      exact ⟨hyx, hz⟩
    rw [resolve_var_of_follows hfree, free_comm]
    exact resolve_free_of_reaches (context.free y) hrest
termination_by context.bindings.size
decreasing_by exact size_free_lt hz

theorem resolve_var_of_onCycle (h : context.OnCycle x) : context.resolve (.var x) = .var x := by
  obtain ⟨y, hstep, hback⟩ := TransGen.head'_iff.mp h
  rw [resolve_var_of_follows hstep]
  exact resolve_free_of_reaches context hback

/-- **A chain resolves to the variable at which it enters a cycle.** -/
theorem resolve_var_of_entersAt (h : context.EntersAt w c) : context.resolve (.var w) = .var c := by
  obtain ⟨hc, hpath⟩ := h
  induction hpath using ReflTransGen.head_induction_on with
  | refl => exact resolve_var_of_onCycle hc
  | @head w w' hstep hrest ih =>
    obtain ⟨hw, hfollows⟩ := hstep
    have hruns : context.RunsIntoCycle w' := EntersAt.runsIntoCycle ⟨hc, hrest⟩
    -- `w` is on no cycle, so its chain does not come back to it
    have hback : ¬ ReflTransGen context.DependsOn w' w := fun hpath =>
      hw (.head' hfollows (hruns.reaches hpath))
    rw [resolve_var_of_follows hfollows, resolve_free_of_not_reaches, ih]
    intro x hx
    obtain rfl := TypeRef.mentions_var_iff.mp hx
    exact hback

/-- Where a bound variable resolves to a variable, it is bound to a variable. -/
theorem exists_follows_of_resolve_var (hbound : context.lookup? y = some bound)
    (h : context.resolve (.var y) = .var z) :
    ∃ w, context.Follows y w ∧ (context.free y).resolve (.var w) = .var z := by
  rw [resolve_var, hbound] at h
  obtain ⟨w, rfl⟩ := TypeRef.exists_var_of_bind_eq_var ((resolve_eq_bind _ _).symm.trans h)
  exact ⟨w, hbound, h⟩

/-- A variable that a variable resolves to is on its chain. -/
theorem reaches_of_resolve_var (context : TypeContext) {y z : String}
    (h : context.resolve (.var y) = .var z) : ReflTransGen context.Follows y z := by
  cases hbound : context.lookup? y with
  | none =>
    rw [resolve_var, hbound] at h
    obtain rfl := TypeRef.var.inj h
    exact .refl
  | some bound =>
    obtain ⟨w, hfollows, hrest⟩ := exists_follows_of_resolve_var hbound h
    exact .head hfollows (reaches_of_reaches_free (reaches_of_resolve_var (context.free y) hrest))
termination_by context.bindings.size
decreasing_by exact size_free_lt hbound

/-- **A variable resolves to itself iff it is unbound or on a cycle.** -/
theorem resolve_var_eq_self_iff :
    context.resolve (.var x) = .var x ↔ context.lookup? x = none ∨ context.OnCycle x := by
  constructor
  · intro h
    cases hbound : context.lookup? x with
    | none => exact .inl rfl
    | some bound =>
      obtain ⟨w, hfollows, hrest⟩ := exists_follows_of_resolve_var hbound h
      have hback := reaches_of_resolve_var (context.free x) hrest
      exact .inr (.head' hfollows (reaches_of_reaches_free hback))
  · rintro (hnone | hcycle)
    · rw [resolve_var, hnone]
    · exact resolve_var_of_onCycle hcycle

/-! ## Circles inside other types -/

/-- Where a variable on no cycle is free, the others are on cycles as before. -/
theorem onCycle_free_iff (hx : ¬ context.OnCycle x) :
    (context.free x).OnCycle y ↔ context.OnCycle y := by
  rw [OnCycle, follows_free]
  constructor
  · exact TransGen.mono (avoiding_le _ _) y y
  · intro hy
    have hyx : y ≠ x := fun heq => hx (heq ▸ hy)
    obtain ⟨z, hstep, hback⟩ := TransGen.head'_iff.mp hy
    rcases reaches_avoiding_or hback x with havoid | ⟨htox, u, hu, hrest⟩
    · exact .head' ⟨hyx, hstep⟩ havoid
    · -- a cycle through `y` that comes to `x` would be one through `x`
      exact absurd (.head' hu ((reaches_of_avoiding hrest).trans (.head hstep htox))) hx

/-- The context in which several variables are free. -/
def freeAll (context : TypeContext) (names : List String) : TypeContext :=
  names.foldl free context

theorem lookup?_freeAll (context : TypeContext) (names : List String) (x : String) :
    (context.freeAll names).lookup? x = if x ∈ names then none else context.lookup? x := by
  induction names generalizing context with
  | nil => rfl
  | cons name names ih =>
    have hstep : context.freeAll (name :: names) = (context.free name).freeAll names := rfl
    rw [hstep, ih, lookup?_free]
    by_cases hx : x ∈ names
    · simp [hx]
    · simp [hx, eq_comm]

theorem freeAll_free (context : TypeContext) (names : List String) (x : String) :
    (context.freeAll names).free x = (context.free x).freeAll names := by
  refine ext_lookup? fun y => ?_
  simp only [lookup?_free, lookup?_freeAll]
  by_cases hx : x = y <;> simp [hx]

/-- Only finitely many variables are on cycles. -/
theorem exists_onCycle_names (context : TypeContext) :
    ∃ names : List String, ∀ x, x ∈ names ↔ context.OnCycle x := by
  classical
  refine ⟨context.bindings.keys.filter fun x => context.OnCycle x, fun x => ?_⟩
  rw [List.mem_filter, decide_eq_true_iff, and_iff_right_iff_imp]
  intro hx
  obtain ⟨y, hstep, -⟩ := TransGen.head'_iff.mp hx
  rw [Std.ExtTreeMap.mem_keys, Std.ExtTreeMap.mem_iff_isSome_getElem?]
  exact Option.isSome_of_eq_some hstep

/-- **The variables on cycles might as well be unbound.** -/
theorem resolve_freeAll {names : List String} (h : ∀ x, x ∈ names ↔ context.OnCycle x) :
    (context.freeAll names).resolve t = context.resolve t := by
  induction context, t using resolve.induct with
  | case1 context t ih =>
    refine resolve_congr fun x _ => ?_
    rw [resolve_var, lookup?_freeAll]
    by_cases hx : context.OnCycle x
    · rw [if_pos ((h x).mpr hx), resolve_var_of_onCycle hx]
    · rw [if_neg fun hmem => hx ((h x).mp hmem), resolve_var]
      cases hbound : context.lookup? x with
      | none => rfl
      | some bound =>
        show ((context.freeAll names).free x).resolve bound = (context.free x).resolve bound
        rw [freeAll_free]
        exact ih x bound hbound fun y => (h y).trans (onCycle_free_iff hx).symm

/-- **Circular bindings are left open.** The chain of a variable that comes to a cycle resolves to the
variable at which it enters the cycle. A variable on a cycle, and apart from these only an unbound
one, resolves to itself. This is so wherever it occurs: the variables of a type are resolved one by one,
and through whatever bindings a cycle is met, its variables might as well be unbound. -/
theorem resolve_circular (context : TypeContext) :
    (∀ w, context.RunsIntoCycle w → ∃ c, context.EntersAt w c) ∧
    (∀ w c, context.EntersAt w c → context.resolve (.var w) = .var c) ∧
    (∀ x, context.resolve (.var x) = .var x ↔ context.lookup? x = none ∨ context.OnCycle x) ∧
    (∀ t, context.resolve t = t.bind fun x => context.resolve (.var x)) ∧
    ∃ names : List String, (∀ x, x ∈ names ↔ context.OnCycle x) ∧
      ∀ t, context.resolve t = (context.freeAll names).resolve t := by
  obtain ⟨names, hnames⟩ := exists_onCycle_names context
  exact ⟨fun w => RunsIntoCycle.exists_entersAt, fun w c => resolve_var_of_entersAt,
    fun x => resolve_var_eq_self_iff, resolve_eq_bind context, names, hnames,
    fun t => (resolve_freeAll hnames).symm⟩

/-- A chain from `A` to the cycle of `B` and `C`. -/
def ring : TypeContext :=
  (((∅ : TypeContext).bind "A" (.var "B")).bind "B" (.var "C")).bind "C" (.var "B")

theorem ring_entersAt : ring.EntersAt "A" "B" := by
  have hA : ring.Follows "A" "B" := by simp [Follows, ring, lookup?_bind]
  have hB : ring.Follows "B" "C" := by simp [Follows, ring, lookup?_bind]
  have hC : ring.Follows "C" "B" := by simp [Follows, ring, lookup?_bind]
  refine ⟨.tail (.single hB) hC, .single ⟨fun hcycle => ?_, hA⟩⟩
  -- nothing is bound to `A`
  obtain ⟨x, -, hx⟩ := TransGen.tail'_iff.mp hcycle
  simp only [Follows, ring, lookup?_bind, lookup?_empty] at hx
  grind

theorem ring_resolve :
    ring.resolve (.var "A") = .var "B" ∧ ring.resolve (.var "B") = .var "B" ∧
      ring.resolve (.declared "Pair" [.var "B", .array (.var "A")]) =
        .declared "Pair" [.var "B", .array (.var "B")] := by
  obtain ⟨-, hchain, hself, hparts, -⟩ := resolve_circular ring
  have hA : ring.resolve (.var "A") = .var "B" := hchain "A" "B" ring_entersAt
  have hB : ring.resolve (.var "B") = .var "B" := (hself "B").mpr (.inr ring_entersAt.1)
  refine ⟨hA, hB, ?_⟩
  rw [hparts]
  simp [TypeRef.bind, TypeRef.bindAll, hA, hB]

end ApiDescription.TypeContext
