/-! Verdicts of checks: when a check that is put together from others has nothing to refuse. -/

namespace PermissionTypes.Schema

variable {ε : Type}

theorem bind_eq_ok_iff {check : Except ε α} {next : α → Except ε β} {result : β} :
    (check >>= next) = .ok result ↔ ∃ value, check = .ok value ∧ next value = .ok result := by
  cases check with
  | error violation => simp [bind, Except.bind]
  | ok value => simp [bind, Except.bind]

theorem then_eq_ok_iff {check : Except ε Unit} {next : Except ε α} {result : α} :
    (check >>= fun _ => next) = .ok result ↔ check = .ok () ∧ next = .ok result := by
  cases check with
  | error violation => simp [bind, Except.bind]
  | ok value => simp [bind, Except.bind]

theorem pure_eq_ok_iff {value result : α} :
    (pure value : Except ε α) = .ok result ↔ value = result := by
  simp [pure, Except.pure]

theorem refuse_eq_ok_iff {refused : Prop} [Decidable refused] {violation : ε}
    {next : Except ε α} {result : α} :
    (if refused then .error violation else next) = .ok result ↔
      ¬ refused ∧ next = .ok result := by
  split
  · rename_i holds
    simp [holds]
  · rename_i holds
    simp [holds]

theorem throw_bind_eq_ok_iff {refused : Prop} [Decidable refused] {violation : ε}
    {next : Except ε α} {unreached : β → Except ε α} {result : α} :
    (if refused then throw violation >>= unreached else next) = .ok result ↔
      ¬ refused ∧ next = .ok result :=
  refuse_eq_ok_iff

theorem accept_eq_ok_iff {accepted : Prop} [Decidable accepted] {violation : ε} :
    (if accepted then .ok () else .error violation : Except ε Unit) = .ok () ↔ accepted := by
  split
  · rename_i holds
    simp [holds]
  · rename_i holds
    simp [holds]

theorem forM_eq_ok_iff {check : α → Except ε Unit} {values : List α} :
    values.forM check = .ok () ↔ ∀ value ∈ values, check value = .ok () := by
  induction values with
  | nil => simp [List.forM, pure, Except.pure]
  | cons value values induction =>
      rw [List.forall_mem_cons, ← induction]
      change (check value >>= fun _ => values.forM check) = .ok () ↔ _
      rw [then_eq_ok_iff]

theorem throw_bind_eq_error_iff {refused : Prop} [Decidable refused] {violation other : ε}
    {next : Except ε α} {unreached : β → Except ε α} :
    (if refused then throw violation >>= unreached else next) = .error other ↔
      refused ∧ other = violation ∨ ¬ refused ∧ next = .error other := by
  by_cases holds : refused
  · simp [holds, throw, throwThe, MonadExceptOf.throw, bind, Except.bind, eq_comm]
  · simp [holds]

/-- The first value that is refused says what is wrong with all of them. -/
theorem forM_eq_error_iff {check : α → Except ε Unit} {values : List α} {violation : ε} :
    values.forM check = .error violation ↔
      ∃ front value back, values = front ++ value :: back ∧
        (∀ earlier ∈ front, check earlier = .ok ()) ∧ check value = .error violation := by
  induction values with
  | nil =>
      refine iff_of_false nofun ?_
      rintro ⟨front, value, back, equal, _⟩
      cases front <;> cases equal
  | cons value values induction =>
      have unfolded : (value :: values).forM check =
          check value >>= fun _ => values.forM check := rfl
      rw [unfolded]
      cases verdict : check value with
      -- A refusal of the first value leaves no room for accepted values in front.
      | error found =>
          constructor
          · intro equal
            obtain rfl := Except.error.inj equal
            exact ⟨[], value, values, rfl, List.forall_mem_nil _, verdict⟩
          · rintro ⟨front, refused, back, equal, accepted, refusal⟩
            cases front with
            | nil =>
                rw [List.nil_append, List.cons.injEq] at equal
                rwa [← equal.1, verdict] at refusal
            | cons first front =>
                rw [List.cons_append, List.cons.injEq] at equal
                have acceptedFirst := accepted first List.mem_cons_self
                rw [← equal.1, verdict] at acceptedFirst
                cases acceptedFirst
      | ok _ =>
          refine Iff.trans induction ?_
          constructor
          · rintro ⟨front, refused, back, rfl, accepted, refusal⟩
            exact ⟨value :: front, refused, back, rfl,
              List.forall_mem_cons.mpr ⟨verdict, accepted⟩, refusal⟩
          · rintro ⟨front, refused, back, equal, accepted, refusal⟩
            cases front with
            | nil =>
                rw [List.nil_append, List.cons.injEq] at equal
                rw [← equal.1, verdict] at refusal
                cases refusal
            | cons first front =>
                rw [List.cons_append, List.cons.injEq] at equal
                exact ⟨front, refused, back, equal.2, (List.forall_mem_cons.mp accepted).2, refusal⟩

/-- If each value has one result, which it has under a condition, so have all of them. -/
theorem mapM_eq_ok_iff {check : α → Except ε β} {holds : α → Prop} {project : α → β}
    {values : List α}
    (each : ∀ value ∈ values, ∀ result,
      check value = .ok result ↔ holds value ∧ result = project value)
    {results : List β} :
    values.mapM check = .ok results ↔
      (∀ value ∈ values, holds value) ∧ results = values.map project := by
  induction values generalizing results with
  | nil => simp [pure, Except.pure, eq_comm]
  | cons value values induction =>
      rcases List.forall_mem_cons.mp each with ⟨first, more⟩
      rw [List.mapM_cons, List.forall_mem_cons]
      simp only [bind_eq_ok_iff, pure_eq_ok_iff, first, induction more]
      constructor
      · rintro ⟨_, ⟨valueHolds, rfl⟩, _, ⟨valuesHold, rfl⟩, rfl⟩
        exact ⟨⟨valueHolds, valuesHold⟩, rfl⟩
      · rintro ⟨⟨valueHolds, valuesHold⟩, rfl⟩
        exact ⟨_, ⟨valueHolds, rfl⟩, _, ⟨valuesHold, rfl⟩, rfl⟩

/-! ## Distinct keys -/

/-- Keys are distinct, and new among those from before, exactly if this is found out value by value
while those from before grow. -/
theorem distinct_cons_iff {key : α → String} {value : α} {values : List α}
    {before : List String} :
    ((value :: values).map key).Nodup ∧ (∀ next ∈ value :: values, key next ∉ before) ↔
      key value ∉ before ∧ (values.map key).Nodup ∧
        ∀ next ∈ values, key next ∉ key value :: before := by
  rw [List.map_cons, List.nodup_cons, List.forall_mem_cons, List.mem_map]
  simp only [List.mem_cons, not_or]
  constructor
  · rintro ⟨⟨notAgain, distinct⟩, fresh, others⟩
    refine ⟨fresh, distinct, fun next member => ⟨?_, others next member⟩⟩
    exact fun same => notAgain ⟨next, member, same⟩
  · rintro ⟨fresh, distinct, others⟩
    refine ⟨⟨?_, distinct⟩, fresh, fun next member => (others next member).2⟩
    rintro ⟨next, member, same⟩
    exact (others next member).1 same

/-! ## Looking up -/

theorem find?_isSome_iff {key : α → String} {values : List α} {wanted : String} :
    (values.find? fun value => key value == wanted).isSome = true ↔
      ∃ value ∈ values, key value = wanted := by
  simp

theorem find?_eq_some_iff_of_nodup {key : α → String} {values : List α}
    (distinct : (values.map key).Nodup) {wanted : String} {found : α} :
    (values.find? fun value => key value == wanted) = some found ↔
      found ∈ values ∧ key found = wanted := by
  induction values with
  | nil => simp
  | cons value values induction =>
      rw [List.map_cons, List.nodup_cons] at distinct
      by_cases same : key value = wanted
      · have isFound : (value :: values).find? (fun value => key value == wanted) = some value := by
          simp [same]
        rw [isFound, Option.some_inj]
        constructor
        · rintro rfl
          exact ⟨List.mem_cons_self .., same⟩
        · rintro ⟨member, sameFound⟩
          rcases List.mem_cons.mp member with rfl | member
          · rfl
          · refine absurd (List.mem_map.mpr ⟨found, member, ?_⟩) distinct.1
            rw [sameFound, same]
      · have goesOn : (value :: values).find? (fun value => key value == wanted) =
            values.find? fun value => key value == wanted := by
          simp [same]
        rw [goesOn, induction distinct.2, List.mem_cons]
        constructor
        · rintro ⟨member, sameFound⟩
          exact ⟨.inr member, sameFound⟩
        · rintro ⟨rfl | member, sameFound⟩
          · exact absurd sameFound same
          · exact ⟨member, sameFound⟩

end PermissionTypes.Schema
