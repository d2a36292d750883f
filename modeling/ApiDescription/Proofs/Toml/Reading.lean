import ApiDescription.Proofs.Toml.Paths
import ApiDescription.Toml.Reader

/-!
# The keys of what is read

A text of TOML is read into one table step by step. No step puts a key into a table that has it already,
unless in the place of what stands there, so each table of what is read has distinct keys.

Results:
* `Draft.distinct_put`, `Draft.distinct_update`: one step keeps keys distinct.
* `distinct_of_parse?`: the tables of what is read have distinct keys.
-/

namespace ApiDescription.Toml

/-! ## Tables in the making -/

namespace Draft

variable {draft draft' : Draft} {key : String} {path : List String} {node : Node} {content : Toml}

theorem finishEntries_eq_map (entries : List (String × Node)) :
    Node.finishEntries entries = entries.map fun e => (e.1, e.2.finish) := by
  induction entries with
  | nil => rfl
  | cons e rest ih => rw [Node.finishEntries, ih, List.map_cons]

/-- A table in the making has distinct keys, and so have the tables in it. -/
def Distinct (draft : Draft) : Prop :=
  draft.finish.Distinct

theorem distinct_iff : draft.Distinct ↔
    (draft.entries.map (·.1)).Nodup ∧ ∀ e ∈ draft.entries, e.2.finish.Distinct := by
  rw [Distinct, finish, distinct_table_iff, finishEntries_eq_map, List.map_map, List.forall_mem_map]
  rfl

theorem distinct_of_nil (implicit dotted : Bool) : Distinct ⟨implicit, dotted, []⟩ :=
  distinct_iff.mpr ⟨List.nodup_nil, nofun⟩

theorem distinct_put (h : draft.Distinct) (hnode : node.finish.Distinct) (key : String) :
    (draft.put key node).Distinct := by
  obtain ⟨hnodup, hentries⟩ := distinct_iff.mp h
  unfold put
  split
  · -- the node takes the place of another, so the keys stay as they are
    rw [distinct_iff, List.map_map, List.forall_mem_map]
    constructor
    · convert hnodup using 1
      refine List.map_congr_left fun e _ => ?_
      by_cases hkey : e.1 = key <;> simp [hkey]
    · rintro ⟨name, old⟩ he
      by_cases hkey : name = key
      · simpa [hkey] using hnode
      · simpa [hkey] using hentries _ he
  · next hnone =>
    rw [distinct_iff, List.map_append, List.nodup_append']
    refine ⟨⟨hnodup, List.nodup_singleton _, ?_⟩, ?_⟩
    · intro name hname hkey
      obtain rfl := List.mem_singleton.mp hkey
      obtain ⟨e, he, rfl⟩ := List.mem_map.mp hname
      exact hnone (by rw [(Tag.lookup_eq_some_iff_mem hnodup).mpr he, Option.isSome_some])
    · rw [List.forall_mem_append, List.forall_mem_singleton]
      exact ⟨hentries, hnode⟩

theorem distinct_of_lookup (h : draft.Distinct) {implicit dotted : Bool}
    {entries : List (String × Node)} (hlookup : draft.entries.lookup key =
      some (.table implicit dotted entries)) : Distinct ⟨implicit, dotted, entries⟩ :=
  (distinct_iff.mp h).2 _ (Tag.mem_of_lookup_eq_some hlookup)

/-- A change of one table keeps keys distinct if it does so in that table. -/
theorem distinct_update {f : Draft → Option Draft}
    (hf : ∀ {table table' : Draft}, table.Distinct → f table = some table' → table'.Distinct)
    {dotted : Bool} (h : draft.Distinct) (hupdate : draft.update dotted path f = some draft') :
    draft'.Distinct := by
  induction path generalizing draft draft' with
  | nil => exact hf h hupdate
  | cons key path ih =>
    unfold update at hupdate
    cases hlookup : draft.entries.lookup key with
    | none =>
      rw [hlookup] at hupdate
      obtain ⟨child, hchild, hput⟩ := Option.bind_eq_some_iff.mp hupdate
      obtain rfl := Option.some.inj hput
      refine distinct_put h ?_ key
      exact ih (distinct_of_nil true dotted) hchild
    | some node =>
      rw [hlookup] at hupdate
      cases node with
      | value content => cases hupdate
      | table implicit wasDotted entries =>
        simp only [Option.ite_none_left_eq_some] at hupdate
        obtain ⟨child, hchild, hput⟩ := Option.bind_eq_some_iff.mp hupdate.2
        obtain rfl := Option.some.inj hput
        refine distinct_put h ?_ key
        exact ih (distinct_of_lookup h hlookup) hchild
      | tables elements =>
        cases elements with
        | nil => cases hupdate
        | cons last others =>
          -- whatever is changed there, the result is an array
          obtain ⟨child, -, hput⟩ := Option.bind_eq_some_iff.mp hupdate
          obtain rfl := Option.some.inj hput
          refine distinct_put h ?_ key
          exact distinct_arr _

theorem distinct_set? (h : draft.Distinct) (hcontent : content.Distinct)
    (hset : draft.set? path content = some draft') : draft'.Distinct := by
  obtain ⟨⟨way, key⟩, -, hupdate⟩ := Option.bind_eq_some_iff.mp hset
  refine distinct_update ?_ h hupdate
  intro table table' htable hput
  obtain ⟨-, hput⟩ := Option.ite_none_left_eq_some.mp hput
  obtain rfl := Option.some.inj hput
  refine distinct_put htable ?_ key
  exact hcontent

theorem distinct_openTable? (h : draft.Distinct) (hopen : draft.openTable? path = some draft') :
    draft'.Distinct := by
  obtain ⟨⟨way, key⟩, -, hupdate⟩ := Option.bind_eq_some_iff.mp hopen
  refine distinct_update ?_ h hupdate
  intro table table' htable hput
  split at hput
  · obtain rfl := Option.some.inj hput
    refine distinct_put htable ?_ key
    exact distinct_of_nil false false
  · next hlookup =>
    obtain rfl := Option.some.inj hput
    refine distinct_put htable ?_ key
    exact distinct_of_lookup htable hlookup
  · cases hput

theorem distinct_openElement? (h : draft.Distinct)
    (hopen : draft.openElement? path = some draft') : draft'.Distinct := by
  obtain ⟨⟨way, key⟩, -, hupdate⟩ := Option.bind_eq_some_iff.mp hopen
  refine distinct_update ?_ h hupdate
  intro table table' htable hput
  split at hput
  · obtain rfl := Option.some.inj hput
    refine distinct_put htable ?_ key
    exact distinct_arr _
  · obtain rfl := Option.some.inj hput
    refine distinct_put htable ?_ key
    exact distinct_arr _
  · cases hput

end Draft

/-! ## Values -/

/-- What a reader reads has distinct keys. -/
def ReadsDistinct (read? : List Char → Option (Toml × List Char)) : Prop :=
  ∀ {s t rest}, read? s = some (t, rest) → t.Distinct

variable {read? : List Char → Option (Toml × List Char)} {s rest : List Char} {t : Toml}
  {draft draft' : Draft} {path : List String}

theorem distinct_of_pair? (hread : ReadsDistinct read?)
    (h : pair? read? s = some (path, t, rest)) : t.Distinct := by
  unfold pair? at h
  split at h
  · obtain ⟨⟨content, behind⟩, hcontent, heq⟩ := Option.bind_eq_some_iff.mp h
    cases heq
    exact hread hcontent
  · cases h

theorem distinct_of_pairs? (hread : ReadsDistinct read?) (hdraft : draft.Distinct)
    (h : pairs? read? draft s = some (draft', rest)) : draft'.Distinct := by
  fun_induction pairs? read? draft s with
  | case1 => cases h
  | case2 draft s path content next behind hset _ hpair ih =>
    exact ih (Draft.distinct_set? hdraft (distinct_of_pair? hread hpair) hset) h
  | case3 => cases h
  | case4 draft s path content next behind hset hpair =>
    cases h
    exact Draft.distinct_set? hdraft (distinct_of_pair? hread hpair) hset
  | case5 => cases h

theorem readsDistinct_value? (depth : Nat) : ReadsDistinct (value? depth) := by
  induction depth using Nat.strongRecOn with
  | ind depth ih =>
    intro s t rest h
    unfold value? at h
    split at h
    · obtain ⟨_, -, heq⟩ := Option.map_eq_some_iff.mp h
      cases heq
      exact distinct_str _
    · obtain ⟨_, -, heq⟩ := Option.map_eq_some_iff.mp h
      cases heq
      exact distinct_str _
    · obtain ⟨_, -, heq⟩ := Option.map_eq_some_iff.mp h
      cases heq
      exact distinct_arr _
    · -- only here the value is a table: an empty one, or what its pairs make up
      next behind depth =>
      split at h
      · cases h
        exact distinct_table_iff.mpr ⟨List.nodup_nil, nofun⟩
      · obtain ⟨⟨draft, behind⟩, hpairs, heq⟩ := Option.map_eq_some_iff.mp h
        cases heq
        exact distinct_of_pairs? (ih depth (Nat.lt_succ_self depth))
          (Draft.distinct_of_nil false false) hpairs
    · obtain ⟨_, -, heq⟩ := Option.map_eq_some_iff.mp h
      cases heq
      exact distinct_scalar

/-! ## Texts -/

namespace Lines

variable {lines lines' : Lines}

/-- A line keeps keys distinct, be it a header, a pair or blank. -/
theorem distinct_of_step? (h : lines.root.Distinct) (hstep : lines.step? s = some (lines', rest)) :
    lines'.root.Distinct := by
  unfold step? at hstep
  split at hstep
  · split at hstep
    · obtain ⟨root, hroot, heq⟩ := Option.bind_eq_some_iff.mp hstep
      cases heq
      exact Draft.distinct_openElement? h hroot
    · cases hstep
  · split at hstep
    · obtain ⟨root, hroot, heq⟩ := Option.bind_eq_some_iff.mp hstep
      cases heq
      exact Draft.distinct_openTable? h hroot
    · cases hstep
  · split at hstep
    · cases hstep
      exact h
    · obtain ⟨⟨path, content, behind⟩, hpair, hstep⟩ := Option.bind_eq_some_iff.mp hstep
      obtain ⟨root, hroot, heq⟩ := Option.bind_eq_some_iff.mp hstep
      cases heq
      have hcontent : content.Distinct := distinct_of_pair? (readsDistinct_value? depthLimit) hpair
      exact Draft.distinct_update (fun htable hset => Draft.distinct_set? htable hcontent hset) h hroot

theorem distinct_of_read? (h : lines.root.Distinct) (hread : lines.read? s = some lines') :
    lines'.root.Distinct := by
  fun_induction read? lines s with
  | case1 => exact Option.some.inj hread ▸ h
  | case2 => cases hread
  | case3 => cases hread
  | case4 lines s _ next behind hstep last _ _ ih => exact ih (distinct_of_step? h hstep) hread
  | case5 => cases hread

end Lines

/-- **The table of a text has distinct keys**, and so has each table in it. -/
theorem distinct_of_parse? {text : String} (h : parse? text = some t) : t.Distinct := by
  obtain ⟨lines, hread, rfl⟩ := Option.map_eq_some_iff.mp h
  exact Lines.distinct_of_read? (Draft.distinct_of_nil false false) hread

end ApiDescription.Toml
