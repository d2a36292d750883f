import ApiDescription.Proofs.Model.Lookup

/-!
# What validation accepts and what it reports

Declarations form a model exactly if their references are in order and no two types share a qualified
name. Otherwise one declaration is blamed: the first that has a fault, where a name is a fault of the
second type that has it. `Declaration.Fault` lists what a declaration may be blamed for. Within a
declaration the references are looked at in order, and a type's name after its members, so each
declaration has one fault at most.

Results:
* `Declaration.fault?_eq_some_iff`: the fault that is found in a declaration is the one it is blamed
  for.
* `indexFrom_drop_eq_error_iff`: validation from a position on reports the first fault from there on.
* `ofDeclarations_outcome`: what validation accepts, what it reports, and what the model it makes
  answers.
-/

namespace ApiDescription

variable {decls : List Declaration} {d : Declaration} {id : DeclId} {e : ModelError}

/-! ## References -/

theorem danglingFault?_eq_some_iff :
    danglingFault? decls d id = some e ↔ decls.length ≤ id ∧ e = .danglingReference d.label id := by
  unfold danglingFault?
  split
  · next h => simp [Nat.not_le.mpr h]
  · next h => simp [Nat.not_lt.mp h, eq_comm]

theorem parameterFault?_eq_some_iff :
    parameterFault? decls d id = some e ↔
      (decls.length ≤ id ∧ e = .danglingReference d.label id) ∨
      ∃ p, decls[id]? = some p ∧ p.isParameter = false ∧ e = .wrongKind d.label .parameter id := by
  unfold parameterFault?
  cases hp : decls[id]? with
  | none =>
    have hle := List.getElem?_eq_none_iff.mp hp
    simp only [Option.some.injEq, hle, true_and, reduceCtorEq, false_and, exists_false, or_false]
    exact eq_comm
  | some p =>
    have hlt := (List.getElem?_eq_some_iff.mp hp).1
    simp only [Nat.not_le.mpr hlt, false_and, false_or, Option.some.injEq, exists_eq_left']
    cases p.isParameter with
    | true => simp
    | false =>
      simp only [Bool.false_eq_true, if_false, true_and, Option.some.injEq]
      exact eq_comm

theorem findSome?_danglingFault?_eq_some_iff {ids : List DeclId} :
    ids.findSome? (danglingFault? decls d) = some e ↔ ∃ before id after,
      ids = before ++ id :: after ∧ (∀ b ∈ before, b < decls.length) ∧ decls.length ≤ id ∧
        e = .danglingReference d.label id := by
  simp only [List.findSome?_eq_some_iff, danglingFault?_eq_some_iff, danglingFault?_eq_none_iff]
  constructor
  · rintro ⟨before, id, after, hs, ⟨hid, he⟩, hb⟩
    exact ⟨before, id, after, hs, hb, hid, he⟩
  · rintro ⟨before, id, after, hs, hb, hid, he⟩
    exact ⟨before, id, after, hs, ⟨hid, he⟩, hb⟩

theorem findSome?_parameterFault?_eq_some_iff {ids : List DeclId} :
    ids.findSome? (parameterFault? decls d) = some e ↔ ∃ before id after,
      ids = before ++ id :: after ∧
      (∀ b ∈ before, ∃ p, decls[b]? = some p ∧ p.isParameter = true) ∧
      ((decls.length ≤ id ∧ e = .danglingReference d.label id) ∨
        ∃ p, decls[id]? = some p ∧ p.isParameter = false ∧ e = .wrongKind d.label .parameter id) := by
  simp only [List.findSome?_eq_some_iff, parameterFault?_eq_some_iff, parameterFault?_eq_none_iff]
  constructor
  · rintro ⟨before, id, after, hs, he, hb⟩
    exact ⟨before, id, after, hs, hb, he⟩
  · rintro ⟨before, id, after, hs, hb, he⟩
    exact ⟨before, id, after, hs, he, hb⟩

/-! ## The fault of one declaration -/

/-- What a declaration at a position is blamed for, each fault only where the ones before it are
absent. -/
inductive Declaration.Fault (decls : List Declaration) (position : Nat) (d : Declaration) :
    ModelError → Prop where
  /-- The member behind `before` is the first one that is not there. -/
  | member {info : TypeInfo} {before after : List DeclId} {id : DeclId}
      (hk : d.kind = .type info) (hs : info.members = before ++ id :: after)
      (hb : ∀ b ∈ before, b < decls.length) (hid : decls.length ≤ id) :
      Fault decls position d (.danglingReference d.label id)
  /-- All members are there, but a type of the same name stands before this one. -/
  | name {info : TypeInfo} {j : Nat} {d' : Declaration} (hk : d.kind = .type info)
      (hm : ∀ m ∈ info.members, m < decls.length) (hj : j < position) (hd : decls[j]? = some d')
      (hn : d'.typeName? = some info.qualifiedName) :
      Fault decls position d (.duplicateType info.qualifiedName)
  /-- The parameter behind `before` is the first that is not in order, for it is not there. -/
  | missingParameter {before after : List DeclId} {id : DeclId}
      (hk : d.kind = .method (before ++ id :: after))
      (hb : ∀ b ∈ before, ∃ p, decls[b]? = some p ∧ p.isParameter = true)
      (hid : decls.length ≤ id) : Fault decls position d (.danglingReference d.label id)
  /-- The parameter behind `before` is the first that is not in order, for it is something else. -/
  | noParameter {before after : List DeclId} {id : DeclId} {p : Declaration}
      (hk : d.kind = .method (before ++ id :: after))
      (hb : ∀ b ∈ before, ∃ p, decls[b]? = some p ∧ p.isParameter = true)
      (hp : decls[id]? = some p) (hn : p.isParameter = false) :
      Fault decls position d (.wrongKind d.label .parameter id)
  /-- The accessor method behind `before` is the first one that is not there. The getter comes before
  the setter. -/
  | accessor {getter setter : Option DeclId} {before after : List DeclId} {id : DeclId}
      (hk : d.kind = .property getter setter)
      (hs : getter.toList ++ setter.toList = before ++ id :: after)
      (hb : ∀ b ∈ before, b < decls.length) (hid : decls.length ≤ id) :
      Fault decls position d (.danglingReference d.label id)

/-- The index has the names of the types at the positions before `k`. -/
def NamesBefore (decls : List Declaration) (k : Nat) (index : NameMap DeclId) : Prop :=
  ∀ name, name ∈ index ↔ ∃ j d, j < k ∧ decls[j]? = some d ∧ d.typeName? = some name

/-- **The fault that is found in a declaration is the one it is blamed for.** -/
theorem Declaration.fault?_eq_some_iff {k : Nat} {index : NameMap DeclId}
    (hindex : NamesBefore decls k index) : d.fault? decls index = some e ↔ d.Fault decls k e := by
  rw [Declaration.fault?, Option.or_eq_some_iff, referenceFault?_eq_none_iff, referenceFault?,
    WellLinked]
  simp only [Std.ExtTreeMap.contains_iff_mem]
  constructor
  · rintro (href | ⟨hlinked, hname⟩)
    · split at href
      · next info hk =>
        obtain ⟨before, id, after, hs, hb, hid, rfl⟩ := findSome?_danglingFault?_eq_some_iff.mp href
        exact .member hk hs hb hid
      · next ids hk =>
        obtain ⟨before, id, after, rfl, hb, ⟨hid, rfl⟩ | ⟨p, hp, hn, rfl⟩⟩ :=
          findSome?_parameterFault?_eq_some_iff.mp href
        · exact .missingParameter hk hb hid
        · exact .noParameter hk hb hp hn
      · next getter setter hk =>
        obtain ⟨before, id, after, hs, hb, hid, rfl⟩ := findSome?_danglingFault?_eq_some_iff.mp href
        exact .accessor hk hs hb hid
      · cases href
      · cases href
    · obtain ⟨name, hn, hif⟩ := Option.bind_eq_some_iff.mp hname
      obtain ⟨info, hk, rfl⟩ := typeName?_eq_some_iff.mp hn
      split at hif
      · next hmem =>
        obtain rfl := Option.some.inj hif
        obtain ⟨j, d', hj, hd, hn'⟩ := (hindex _).mp hmem
        rw [hk] at hlinked
        exact .name hk hlinked hj hd hn'
      · cases hif
  · intro hf
    cases hf with
    | member hk hs hb hid =>
      rw [hk]
      exact .inl (findSome?_danglingFault?_eq_some_iff.mpr ⟨_, _, _, hs, hb, hid, rfl⟩)
    | name hk hm hj hd hn =>
      refine .inr ⟨by rw [hk]; exact hm, ?_⟩
      rw [typeName?_eq_some_iff.mpr ⟨_, hk, rfl⟩, Option.bind_some,
        if_pos ((hindex _).mpr ⟨_, _, hj, hd, hn⟩)]
    | missingParameter hk hb hid =>
      rw [hk]
      exact .inl (findSome?_parameterFault?_eq_some_iff.mpr ⟨_, _, _, rfl, hb, .inl ⟨hid, rfl⟩⟩)
    | noParameter hk hb hp hn =>
      rw [hk]
      exact .inl
        (findSome?_parameterFault?_eq_some_iff.mpr ⟨_, _, _, rfl, hb, .inr ⟨_, hp, hn, rfl⟩⟩)
    | accessor hk hs hb hid =>
      rw [hk]
      exact .inl (findSome?_danglingFault?_eq_some_iff.mpr ⟨_, _, _, hs, hb, hid, rfl⟩)

/-! ## The first fault -/

theorem NamesBefore.succ {k : Nat} {index : NameMap DeclId} (hindex : NamesBefore decls k index)
    (hd : decls[k]? = some d) : NamesBefore decls (k + 1) (enter index k d) := by
  intro name
  rw [mem_enter, hindex]
  constructor
  · rintro (hn | ⟨j, d', hj, hd', hn⟩)
    · exact ⟨k, d, Nat.lt_succ_self k, hd, hn⟩
    · exact ⟨j, d', Nat.lt_succ_of_lt hj, hd', hn⟩
  · rintro ⟨j, d', hj, hd', hn⟩
    rcases Nat.lt_succ_iff_lt_or_eq.mp hj with hlt | rfl
    · exact .inr ⟨j, d', hlt, hd', hn⟩
    · obtain rfl := Option.some.inj (hd.symm.trans hd')
      exact .inl hn

/-- The error is the fault of the first declaration from position `k` on that has one. -/
def FirstFaultFrom (decls : List Declaration) (k : Nat) (e : ModelError) : Prop :=
  ∃ i d, k ≤ i ∧ decls[i]? = some d ∧ d.Fault decls i e ∧
    ∀ j d', k ≤ j → j < i → decls[j]? = some d' → ∀ e', ¬ d'.Fault decls j e'

/-- Validation from a position on reports the first fault from there on. -/
theorem indexFrom_drop_eq_error_iff {k : Nat} {index : NameMap DeclId}
    (hindex : NamesBefore decls k index) :
    indexFrom decls index k (decls.drop k) = .error e ↔ FirstFaultFrom decls k e := by
  -- the induction is on the declarations that are left; the index grows by those passed
  generalize hrest : decls.drop k = rest
  induction rest generalizing k index with
  | nil =>
    have hlen := List.drop_eq_nil_iff.mp hrest
    simp only [indexFrom, reduceCtorEq, false_iff]
    rintro ⟨i, d, hi, hd, -⟩
    have hlt := (List.getElem?_eq_some_iff.mp hd).1
    omega
  | cons d rest ih =>
    have hd : decls[k]? = some d := by
      rw [← List.head?_drop, hrest]
      rfl
    have htail : decls.drop (k + 1) = rest := by
      rw [← List.tail_drop, hrest]
      rfl
    unfold indexFrom
    cases hfault : d.fault? decls index with
    | some e' =>
      have hf := (Declaration.fault?_eq_some_iff hindex).mp hfault
      constructor
      · rintro ⟨⟩
        exact ⟨k, d, Nat.le_refl k, hd, hf, fun j _ hkj hjk => absurd hkj (Nat.not_le.mpr hjk)⟩
      · rintro ⟨i, d', hi, hd', hf', hfirst⟩
        rcases Nat.eq_or_lt_of_le hi with rfl | hlt
        · obtain rfl := Option.some.inj (hd.symm.trans hd')
          rw [(Declaration.fault?_eq_some_iff hindex).mpr hf'] at hfault
          exact congrArg Except.error (Option.some.inj hfault).symm
        · exact absurd hf (hfirst k d (Nat.le_refl k) hlt hd e')
    | none =>
      have hnone : ∀ e', ¬ d.Fault decls k e' := fun e' hf => by
        rw [(Declaration.fault?_eq_some_iff hindex).mpr hf] at hfault
        cases hfault
      have hrest' := ih (hindex.succ hd) htail
      refine hrest'.trans ⟨?_, ?_⟩
      · rintro ⟨i, d', hi, hd', hf, hfirst⟩
        refine ⟨i, d', Nat.le_of_succ_le hi, hd', hf, fun j d'' hkj hji hd'' => ?_⟩
        rcases Nat.eq_or_lt_of_le hkj with rfl | hlt
        · obtain rfl := Option.some.inj (hd.symm.trans hd'')
          exact hnone
        · exact hfirst j d'' hlt hji hd''
      · rintro ⟨i, d', hi, hd', hf, hfirst⟩
        rcases Nat.eq_or_lt_of_le hi with rfl | hlt
        · obtain rfl := Option.some.inj (hd.symm.trans hd')
          exact absurd hf (hnone e)
        · exact ⟨i, d', hlt, hd', hf, fun j d'' hkj => hfirst j d'' (Nat.le_of_succ_le hkj)⟩

theorem fault?_eq_some_iff : fault? decls = some e ↔ FirstFaultFrom decls 0 e := by
  have hempty : NamesBefore decls 0 ∅ := fun name => by simp
  rw [← indexFrom_drop_eq_error_iff hempty, List.drop_zero, fault?]
  cases indexFrom decls ∅ 0 decls <;> simp

/-- **What validation accepts, what it reports, and what it makes.** Declarations form a model iff
they are consistent. Otherwise the error is the fault of the first declaration that has one. A model
holds the declarations as they were given; a name finds exactly the type that has it, and the members
of a type are those its references lead to, in order and with none dropped. -/
theorem ofDeclarations_outcome (decls : List Declaration) :
    ((∃ model, Model.ofDeclarations decls = .ok model) ↔ Consistent decls) ∧
    (∀ e, Model.ofDeclarations decls = .error e ↔ FirstFaultFrom decls 0 e) ∧
    ∀ model, Model.ofDeclarations decls = .ok model →
      model.decls = decls ∧
      (∀ name i d, model.findType? name = some (i, d) ↔
        decls[i]? = some d ∧ ∃ info, d.kind = .type info ∧ info.qualifiedName = name) ∧
      ∀ i d info, decls[i]? = some d → d.kind = .type info →
        (model.members i).map (·.1) = info.members ∧
          ∀ e ∈ model.members i, decls[e.1]? = some e.2 := by
  refine ⟨Model.exists_ofDeclarations_iff, fun e => ?_, fun model h => ?_⟩
  · rw [Model.ofDeclarations_eq_error_iff, fault?_eq_some_iff]
  · obtain ⟨-, rfl⟩ := Model.ofDeclarations_eq_ok_iff.mp h
    refine ⟨rfl, fun name i d => ?_, fun i d info hd hk => Model.members_eq hd hk⟩
    rw [Model.findType?_eq_some_iff, Declaration.typeName?_eq_some_iff]
    rfl

/-- A type with a field and with a property that has no setter, and the getter of the property. -/
def catalogDeclarations : List Declaration :=
  [{ Declaration.ofType "demo.Item" with
      kind := .type { qualifiedName := "demo.Item", members := [2, 1] } },
   .ofField "id" (.primitive "long"),
   .ofProperty "price" (.primitive "int") (some 3) none,
   .ofMethod "getPrice" (.primitive "int")]

theorem catalog_outcome :
    (∃ model, Model.ofDeclarations catalogDeclarations = .ok model ∧
      (model.members 0).map (·.1) = [2, 1]) ∧
    FirstFaultFrom (catalogDeclarations ++ [.ofType "demo.Item",
      .ofProperty "price" (.primitive "int") none (some 9)]) 0 (.duplicateType "demo.Item") := by
  constructor
  · obtain ⟨hok, -, hmodel⟩ := ofDeclarations_outcome catalogDeclarations
    obtain ⟨model, h⟩ := hok.mpr (fault?_eq_none_iff.mp (by decide +kernel))
    obtain ⟨-, -, hmembers⟩ := hmodel model h
    exact ⟨model, h, (hmembers 0 _ _ rfl rfl).1⟩
  · obtain ⟨-, herror, -⟩ := ofDeclarations_outcome (catalogDeclarations ++ [.ofType "demo.Item",
      .ofProperty "price" (.primitive "int") none (some 9)])
    exact (herror _).mp (Model.ofDeclarations_eq_error_iff.mpr (by decide +kernel))

end ApiDescription
