import ModuleGraph.Proofs.NameMap

/-! # Filing items one by one

A loop that files items under keys, each under one that was not taken, succeeds exactly if every
item is valid and no key comes twice. The map it ends with is then the one of the list of items.
-/

namespace ModuleGraph

theorem bind_eq_ok_iff {α β ε : Type} {x : Except ε α} {f : α → Except ε β} {b : β} :
    x >>= f = .ok b ↔ ∃ a, x = .ok a ∧ f a = .ok b := by
  cases x with
  | error e => exact ⟨nofun, nofun⟩
  | ok a =>
    constructor
    · intro h
      exact ⟨a, rfl, h⟩
    · rintro ⟨a', ha, h⟩
      exact Except.ok.inj ha ▸ h

theorem map_eq_ok_iff {α β ε : Type} {x : Except ε α} {f : α → β} {b : β} :
    x.map f = .ok b ↔ ∃ a, x = .ok a ∧ b = f a := by
  cases x with
  | error e => exact ⟨nofun, nofun⟩
  | ok a => simp [Except.map, eq_comm (a := b)]

theorem map_eq_error_iff {α β ε : Type} {x : Except ε α} {f : α → β} {err : ε} :
    x.map f = .error err ↔ x = .error err := by
  cases x with
  | error e => simp [Except.map]
  | ok a => exact ⟨nofun, nofun⟩

/-- A loop fails exactly if it comes through some of its items and fails at the next. -/
theorem foldlM_eq_error_iff {α β ε : Type} {step : α → β → Except ε α} {l : List β} {a : α}
    {err : ε} : l.foldlM step a = .error err ↔ ∃ before b after a', l = before ++ b :: after ∧
      before.foldlM step a = .ok a' ∧ step a' b = .error err := by
  induction l generalizing a with
  | nil => exact iff_of_false nofun (by simp)
  | cons b l ih =>
    rw [List.foldlM_cons]
    cases hb : step a b with
    | error err' =>
      constructor
      · intro h
        exact ⟨[], b, l, a, rfl, rfl, hb.trans h⟩
      · rintro ⟨_ | ⟨c, before⟩, d, after, a', hl, hok, herr⟩
        · obtain ⟨rfl, -⟩ := List.cons.inj hl
          obtain rfl := Except.ok.inj hok
          exact hb.symm.trans herr
        · obtain ⟨rfl, -⟩ := List.cons.inj hl
          rw [List.foldlM_cons, hb] at hok
          cases hok
    | ok a' =>
      refine ih.trans ?_
      constructor
      · rintro ⟨before, d, after, a'', rfl, hok, herr⟩
        refine ⟨b :: before, d, after, a'', rfl, ?_, herr⟩
        rw [List.foldlM_cons, hb]
        exact hok
      · rintro ⟨_ | ⟨c, before⟩, d, after, a'', hl, hok, herr⟩
        · obtain ⟨rfl, -⟩ := List.cons.inj hl
          obtain rfl := Except.ok.inj hok
          cases hb.symm.trans herr
        · obtain ⟨rfl, rfl⟩ := List.cons.inj hl
          rw [List.foldlM_cons, hb] at hok
          exact ⟨before, d, after, a'', rfl, hok, herr⟩

/-- Where each step files one valid item under a key that was not taken, a list is filed exactly
if its items are valid and their keys distinct and not taken. -/
theorem foldlM_eq_ok_iff {α β ε : Type} {step : NameMap α → β → Except ε (NameMap α)}
    {Valid : β → Prop} (key : β → String) (value : β → α)
    (hstep : ∀ before b after, step before b = .ok after ↔
      Valid b ∧ key b ∉ before ∧ after = before.insert (key b) (value b))
    {l : List β} {before after : NameMap α} : l.foldlM step before = .ok after ↔
      (∀ b ∈ l, Valid b) ∧ (l.map key).Nodup ∧ (∀ b ∈ l, key b ∉ before) ∧
        after = (l.map fun b => (key b, value b)).foldl (fun m e => m.insert e.1 e.2) before := by
  induction l generalizing before with
  | nil =>
    constructor
    · intro h
      exact ⟨by simp, .nil, by simp, (Except.ok.inj h).symm⟩
    · rintro ⟨-, -, -, rfl⟩
      rfl
  | cons b l ih =>
    simp only [List.foldlM_cons, bind_eq_ok_iff, hstep, ih, List.map_cons, List.foldl_cons,
      List.nodup_cons, List.forall_mem_cons, List.mem_map]
    constructor
    · rintro ⟨_, ⟨hv, hk, rfl⟩, hvs, hn, hks, rfl⟩
      simp only [NameMap.mem_insert, not_or] at hks
      refine ⟨⟨hv, hvs⟩, ⟨?_, hn⟩, ⟨hk, fun c hc => (hks c hc).2⟩, rfl⟩
      rintro ⟨c, hc, he⟩
      exact (hks c hc).1 he
    · rintro ⟨⟨hv, hvs⟩, ⟨hne, hn⟩, ⟨hk, hks⟩, rfl⟩
      refine ⟨_, ⟨hv, hk, rfl⟩, hvs, hn, fun c hc hm => ?_, rfl⟩
      rcases NameMap.mem_insert.1 hm with he | hm
      · exact hne ⟨c, hc, he⟩
      · exact hks c hc hm

theorem foldlM_empty_eq_ok_iff {α β ε : Type} {step : NameMap α → β → Except ε (NameMap α)}
    {Valid : β → Prop} (key : β → String) (value : β → α)
    (hstep : ∀ before b after, step before b = .ok after ↔
      Valid b ∧ key b ∉ before ∧ after = before.insert (key b) (value b))
    {l : List β} {m : NameMap α} : l.foldlM step ∅ = .ok m ↔
      (∀ b ∈ l, Valid b) ∧ (l.map key).Nodup ∧ m = .ofList (l.map fun b => (key b, value b)) := by
  rw [foldlM_eq_ok_iff key value hstep, and_iff_right (fun _ _ => NameMap.not_mem_empty _)]
  rfl

theorem foldlM_set_eq_ok_iff {ε : Type} {step : NameSet → String → Except ε NameSet}
    {Valid : String → Prop} (hstep : ∀ before n after, step before n = .ok after ↔
      Valid n ∧ n ∉ before ∧ after = before.insert n)
    {l : List String} {s : NameSet} : l.foldlM step ∅ = .ok s ↔
      (∀ n ∈ l, Valid n) ∧ l.Nodup ∧ s = .ofList l := by
  have hl : NameMap.ofList (l.map fun n => (id n, ())) = NameSet.ofList l := by
    rw [NameMap.ofList, List.foldl_map]
    rfl
  rw [foldlM_empty_eq_ok_iff id (fun _ => ()) hstep, List.map_id, hl]

end ModuleGraph
