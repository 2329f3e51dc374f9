import CallSchema.Proofs.Guard.Passes
import CallSchema.Proofs.Schema.Account
import CallSchema.Proofs.Schema.Leaves

/-!
# What the passes of a call take

A pass matches its values against a leaf of the schema, so it has the account of that leaf
(`Pass.Resolved.exists_leaf_account`).  Every pass but the last one takes a value under the
arguments-object name (`Passes.exists_object`, `Passes.last_object`), and fields with other names take
none.
-/

namespace CallSchema

theorem Value.isText_iff {value : Value} {text : String} :
    value.isText text = true ↔ value = .str text := by
  cases value <;> simp [isText]

namespace Match

theorem argumentsObject?_eq_none_iff {result : Match} :
    result.argumentsObject? = none ↔
      ∀ entry ∈ result.parsed, entry.1 ≠ .str Registry.argumentsObjectName := by
  simp [argumentsObject?, Value.isText_iff]

end Match

/-- Fields with other names take nothing for the arguments object. -/
theorem Schema.Account.argumentsObject?_eq_none [Host] {registry : Registry} {view : CallView}
    {strict : Bool} {fields : List Field} {visits : List Visit} {result : Match}
    (h : Account registry view strict fields visits result)
    (hnames : ∀ field ∈ fields, field.name ≠ .str Registry.argumentsObjectName) :
    result.argumentsObject? = none := by
  rw [Match.argumentsObject?_eq_none_iff]
  intro entry hentry
  obtain ⟨field, hfield, hname⟩ := List.mem_map.mp
    (h.names_sublist.subset (List.mem_map_of_mem hentry))
  rw [← hname]
  exact hnames field hfield

namespace Guard

variable [Host] {registry : Registry} {schema : Schema} {strict : Bool} {values : Value}
  {passes earlier : List Pass} {pass last : Pass}

/-- The match of a pass is that of its view, and its schema has a shape. -/
theorem Pass.Resolved.resolveView_eq (h : pass.Resolved registry schema strict) :
    schema.shapeFault? = none ∧
      (schema.resolveView registry pass.view strict).outcome = .ok pass.result := by
  obtain ⟨hshape, view, hview, hresult⟩ := Schema.resolve_eq_ok_iff.mp h.result_eq
  obtain rfl : view = pass.view := Except.ok.inj (hview.symm.trans h.view_eq)
  exact ⟨hshape, hresult⟩

/-- A pass has the account of a leaf of the schema. -/
theorem Pass.Resolved.exists_leaf_account (h : pass.Resolved registry schema strict) :
    ∃ fields ∈ schema.leaves, ∃ visits,
      Schema.Account registry pass.view strict fields visits pass.result := by
  obtain ⟨-, hresult⟩ := h.resolveView_eq
  obtain ⟨fields, hfields, hmatch⟩ := Schema.exists_leaf_of_resolveView schema hresult
  exact ⟨fields, hfields, Schema.exists_account_of_matchFields hmatch⟩

theorem Pass.Resolved.consumed_pos {object : Value} (h : pass.Resolved registry schema strict)
    (hobject : pass.result.argumentsObject? = some object) : 0 < pass.result.consumed := by
  obtain ⟨fields, -, visits, haccount⟩ := h.exists_leaf_account
  obtain ⟨entry, hentry, -⟩ := Match.mem_of_argumentsObject? hobject
  rw [haccount.consumed_eq]
  exact List.length_pos_of_mem hentry

theorem Passes.resolved (h : Passes registry schema strict values passes) :
    ∀ pass ∈ passes, pass.Resolved registry schema strict := by
  induction h with
  | last hresolved _ =>
      intro pass hmem
      rw [List.mem_singleton.mp hmem]
      exact hresolved
  | again hresolved _ _ ih => exact List.forall_mem_cons.mpr ⟨hresolved, ih⟩

theorem Passes.exists_object (h : Passes registry schema strict values (earlier ++ [last])) :
    ∀ pass ∈ earlier, ∃ object, pass.result.argumentsObject? = some object := by
  induction earlier generalizing values with
  | nil => simp
  | cons first earlier ih =>
      generalize hpasses : first :: earlier ++ [last] = passes at h
      cases h with
      | last _ _ => simp at hpasses
      | @again pass object passes _ hobject hrest =>
          obtain ⟨rfl, rfl⟩ := List.cons.inj hpasses
          exact List.forall_mem_cons.mpr ⟨⟨object, hobject⟩, ih hrest⟩

/-- The last pass holds none. -/
theorem Passes.last_object (h : Passes registry schema strict values (earlier ++ [last])) :
    last.result.argumentsObject? = none := by
  induction earlier generalizing values with
  | nil =>
      cases h with
      | last _ hobject => exact hobject
      | again _ _ hrest => cases hrest
  | cons first earlier ih =>
      generalize hpasses : first :: earlier ++ [last] = passes at h
      cases h with
      | last _ _ => simp at hpasses
      | again _ _ hrest =>
          obtain ⟨-, rfl⟩ := List.cons.inj hpasses
          exact ih hrest

/-- A call against fields with other names is settled in one pass. -/
theorem Passes.exists_pass_of_flat {fields : List Field}
    (h : Passes registry (.flat fields) strict values passes)
    (hnames : ∀ field ∈ fields, field.name ≠ .str Registry.argumentsObjectName) :
    ∃ pass, passes = [pass] ∧ CallView.ofValue values = .ok pass.view ∧
      ∃ visits, Schema.Account registry pass.view strict fields visits pass.result := by
  cases h with
  | @last pass hresolved _ =>
      obtain ⟨_, hleaf, visits, haccount⟩ := hresolved.exists_leaf_account
      rw [List.mem_singleton.mp hleaf] at haccount
      exact ⟨pass, rfl, hresolved.view_eq, visits, haccount⟩
  | @again pass object passes hresolved hobject _ =>
      obtain ⟨_, hleaf, visits, haccount⟩ := hresolved.exists_leaf_account
      rw [List.mem_singleton.mp hleaf] at haccount
      rw [haccount.argumentsObject?_eq_none hnames] at hobject
      cases hobject

/-- Passes whose last match accepts are reported as accepted. -/
theorem Passes.reported (guard : Guard) (active : Strategy) {schema : Value}
    (h : Passes guard.registry (Schema.ofValue schema) strict values passes)
    (hlast : passes.getLast? = some last) (hok : last.result.ok = true) :
    Event.reported (guard.strategy active) ⟨true, none⟩ ∈
      (guard.call active values schema strict).events := by
  obtain ⟨other, hother, hsettle⟩ := h.settle_eq_ok
  obtain rfl : last = other := Option.some.inj (hlast.symm.trans hother)
  refine mem_reported_call_iff.mpr ⟨last.result, hsettle, rfl, ?_⟩
  rw [hok, Match.ok_eq_true_iff.mp hok]

end Guard
end CallSchema
