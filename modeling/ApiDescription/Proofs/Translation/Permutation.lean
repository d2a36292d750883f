import ApiDescription.Proofs.Translation.Descriptions
import Mathlib.Data.Fin.Rev

/-!
# Declarations in another order

Declarations are listed in an order that means nothing: what matters is which declaration a reference
leads to. `permute` puts the declarations in another order and renumbers their references to match. The
result is as consistent as before, and every description and every data type is the same but for
positions, whichever of them fails included.

Results:
* `bijective_renumbering`: a permutation of the first positions renumbers all positions one to one.
* `getElem?_permute`: what stands in the permuted list, and where.
* `permute_invariant`: validity, descriptions and data types of permuted declarations.
-/

namespace ApiDescription

/-! ## Renumbering by a permutation -/

section Renumbering

variable {n : Nat} (p : Equiv.Perm (Fin n)) {id : DeclId}

/-- The renumbering by a permutation of the first positions; the positions behind them stay. -/
def renumbering (id : DeclId) : DeclId :=
  if h : id < n then p ⟨id, h⟩ else id

theorem renumbering_of_lt (h : id < n) : renumbering p id = p ⟨id, h⟩ :=
  dif_pos h

theorem renumbering_of_le (h : n ≤ id) : renumbering p id = id :=
  dif_neg (Nat.not_lt.mpr h)

theorem renumbering_symm_renumbering (id : DeclId) : renumbering p.symm (renumbering p id) = id := by
  rcases Nat.lt_or_ge id n with h | h
  · rw [renumbering_of_lt p h, renumbering_of_lt p.symm (p ⟨id, h⟩).isLt]
    exact congrArg Fin.val (p.symm_apply_apply ⟨id, h⟩)
  · rw [renumbering_of_le p h, renumbering_of_le p.symm h]

theorem bijective_renumbering : Function.Bijective (renumbering p) :=
  Function.bijective_iff_has_inverse.mpr
    ⟨renumbering p.symm, renumbering_symm_renumbering p, renumbering_symm_renumbering p.symm⟩

end Renumbering

/-! ## Permuted declarations -/

/-- The declarations with that of position `i` at position `p i`, and all references renumbered. -/
def permute (decls : List Declaration) (p : Equiv.Perm (Fin decls.length)) : List Declaration :=
  List.ofFn fun j => decls[p.symm j].renumber (renumbering p)

theorem getElem?_permute (decls : List Declaration) (p : Equiv.Perm (Fin decls.length))
    (id : DeclId) :
    (permute decls p)[renumbering p id]? = decls[id]?.map (·.renumber (renumbering p)) := by
  rcases Nat.lt_or_ge id decls.length with h | h
  · rw [renumbering_of_lt p h, permute, List.getElem?_ofFn, dif_pos (p ⟨id, h⟩).isLt,
      List.getElem?_eq_getElem h]
    simp
  · rw [renumbering_of_le p h, List.getElem?_eq_none h, List.getElem?_eq_none (by simpa [permute])]
    rfl

/-- A permutation as a translation, for any vocabulary: nothing changes but positions. -/
def Translation.permutation (v : Vocabulary) {n : Nat} (p : Equiv.Perm (Fin n)) : Translation v where
  position := renumbering p
  bijective := bijective_renumbering p
  decl := Declaration.renumber (renumbering p)
  name_decl _ := rfl
  visibility_decl _ := rfl
  modifiers_decl _ := rfl
  declaredType_decl _ := rfl
  kind_decl _ := rfl
  tags_decl _ _ _ := rfl
  docs_decl _ _ _ := rfl

theorem Translation.maps_permute (v : Vocabulary) (decls : List Declaration)
    (p : Equiv.Perm (Fin decls.length)) :
    (Translation.permutation v p).Maps decls (permute decls p) where
  getElem? := getElem?_permute decls p
  fixed _ h := renumbering_of_le p h

/-- **The order of declarations does not matter.** Declarations form a model iff they do in any other
order. Then every handler has the same description but for positions, or fails with the same error, and
every position the same data type but for positions, or the same error for its new position. -/
theorem permute_invariant (decls : List Declaration) (p : Equiv.Perm (Fin decls.length)) :
    ((∃ model, Model.ofDeclarations (permute decls p) = .ok model) ↔
      ∃ model, Model.ofDeclarations decls = .ok model) ∧
    ∀ model model', Model.ofDeclarations decls = .ok model →
      Model.ofDeclarations (permute decls p) = .ok model' →
      (∀ config s, Synthesizer.ofConfiguration model config = .ok s →
        ∃ s', Synthesizer.ofConfiguration model' config = .ok s' ∧ ∀ handler : Handler,
          s'.describe (handler.renumber (renumbering p)) =
            (s.describe handler).map (·.renumber (renumbering p))) ∧
      ∀ filter id, DataType.ofModel filter model' (renumbering p id) =
        ((DataType.ofModel filter model id).map (·.renumber (renumbering p))).mapError
          (·.renumber (renumbering p)) := by
  constructor
  · rw [Model.exists_ofDeclarations_iff, Model.exists_ofDeclarations_iff]
    exact (Translation.maps_permute {} decls p).consistent_iff
  · intro model model' h h'
    obtain ⟨-, hdecls⟩ := Model.ofDeclarations_eq_ok_iff.mp h
    obtain ⟨-, hdecls'⟩ := Model.ofDeclarations_eq_ok_iff.mp h'
    -- tags stay as they are, so any vocabulary will do
    have hmaps : ∀ v, (Translation.permutation v p).Maps model.decls model'.decls := fun v => by
      rw [hdecls, hdecls']
      exact Translation.maps_permute v decls p
    constructor
    · intro config s hs
      obtain ⟨policy, hpolicy, rfl⟩ := Synthesizer.ofConfiguration_eq_ok_iff.mp hs
      exact ⟨_, Synthesizer.ofConfiguration_eq_ok_iff.mpr ⟨policy, hpolicy, rfl⟩,
        (hmaps config.vocabulary).describe_renumber rfl⟩
    · intro filter id
      exact (hmaps { binding := filter.binding }).ofModel_position rfl id

/-- The declarations of an upload in reverse order: the method comes last, and its plain parameter moves
from position 1 to position 2. -/
theorem upload_reversed : ∃ model' s' r r',
    Model.ofDeclarations (permute uploadDeclarations Fin.revPerm) = .ok model' ∧
    Synthesizer.ofConfiguration model' { accessPolicy := some .field } = .ok s' ∧
    uploadSynthesizer.describe { method := 0 } = .ok r ∧
    s'.describe { method := 3 } = .ok r' ∧
    r.requestParameters.map (·.declaration) = [none, some 1] ∧
    r'.requestParameters.map (·.declaration) = [none, some 2] := by
  have hupload : Model.ofDeclarations uploadDeclarations = .ok uploadSynthesizer.model :=
    Model.ofDeclarations_decls uploadSynthesizer.model
  obtain ⟨hvalid, hsame⟩ := permute_invariant uploadDeclarations Fin.revPerm
  obtain ⟨model', h'⟩ := hvalid.mpr ⟨_, hupload⟩
  obtain ⟨s', hs', hdescribe⟩ := (hsame _ model' hupload h').1 { accessPolicy := some .field }
    uploadSynthesizer (Synthesizer.ofConfiguration_eq_ok_iff.mpr ⟨.field, rfl, rfl⟩)
  have hr : (uploadSynthesizer.describe { method := 0 }).toOption.map (fun r =>
      (r.requestParameters.map (·.declaration),
        (r.renumber (renumbering (n := 4) Fin.revPerm)).requestParameters.map (·.declaration))) =
        some ([none, some 1], [none, some 2]) := by
    decide +kernel
  have hr' : s'.describe { method := 3 } = _ := hdescribe { method := 0 }
  cases h : uploadSynthesizer.describe { method := 0 } with
  | error e => simp [h, Except.toOption] at hr
  | ok r =>
    rw [h] at hr hr'
    obtain ⟨hold, hnew⟩ := Prod.mk.inj (Option.some.inj hr)
    exact ⟨model', s', r, _, h', hs', rfl, hr', hold, hnew⟩

end ApiDescription
