import ModuleGraph.Access
import ModuleGraph.Proofs.Configuration.Stack

/-! # Verdicts on accesses

A verdict is told by the modules of a stack and their requires: an access is permitted if the
requester comes to its target along requires and the target exports the package to it, and of the
two reasons for a denial the first that fails is given.
-/

namespace ModuleGraph

open ModuleGraph.Configuration Relation

/-- A module exports a package to all modules, or to some and the requester is one of them. -/
def Descriptor.ExportsTo (d : Descriptor) (package : String) (requester : ModuleRef) : Prop :=
  d.exports.get? package = some .unqualified ∨
    ∃ targets a, d.exports.get? package = some (.qualified targets) ∧
      requester = .named a ∧ a ∈ targets

namespace Access

variable {c : Configuration} {requester target : ModuleRef} {package a b : String}
  {d : Descriptor} {k : Nat}

/-- An unnamed module reads every module, a named one those that it comes to along requires. -/
inductive Reads (c : Configuration) : ModuleRef → String → Prop
  | unnamed (k : Nat) (b : String) : Reads c (.unnamed k) b
  | named {a b : String} : TransGen c.Requires a b → Reads c (.named a) b

/-- A module may access itself, and what a visible module that it reads exports to it. -/
inductive Allowed (c : Configuration) (package : String) : ModuleRef → ModuleRef → Prop
  | same (m : ModuleRef) : Allowed c package m m
  | exported {requester : ModuleRef} {b : String} {d : Descriptor} : c.find? b = some d →
      Reads c requester b → d.ExportsTo package requester →
      Allowed c package requester (.named b)

/-- A target that is another module and is not read: an unnamed one for a named requester, one
that is not visible, or a visible one that a named requester does not come to. -/
inductive Unreadable (c : Configuration) : ModuleRef → ModuleRef → Prop
  | unnamed (a : String) (k : Nat) : Unreadable c (.named a) (.unnamed k)
  | unknown {requester : ModuleRef} {b : String} : requester ≠ .named b →
      ¬ c.isVisible b = true → Unreadable c requester (.named b)
  | unread {a b : String} : a ≠ b → c.isVisible b = true → ¬ TransGen c.Requires a b →
      Unreadable c (.named a) (.named b)

theorem check_named_congr {q : Configuration} (hf : c.find? b = q.find? b)
    (hr : c.isReadableBy requester b = q.isReadableBy requester b) :
    check c requester (.named b) package = check q requester (.named b) package := by
  unfold check
  simp only [hf, hr]

theorem check_congr {q : Configuration} (hf : ∀ n, c.find? n = q.find? n)
    (hr : ∀ a b, c.doesRead a b = q.doesRead a b) :
    check c requester target package = check q requester target package := by
  cases target with
  | unnamed k => rfl
  | named b =>
    apply check_named_congr (hf b)
    cases requester with
    | unnamed k => rfl
    | named a => exact hr a b

/-- A target is unreadable if it is another module, and either an unnamed one for a named requester
or a named one that is not visible or not read. -/
theorem check_eq_deniedNotReadable_iff :
    check c requester target package = .deniedNotReadable ↔ requester ≠ target ∧
      match target with
      | .unnamed _ => requester.isUnnamed = false
      | .named b => ¬ (c.isVisible b = true ∧ c.isReadableBy requester b = true) := by
  unfold check
  by_cases hne : requester = target
  · simp [hne]
  rw [if_neg hne]
  cases target with
  | unnamed k => cases requester <;> simp [hne, ModuleRef.isUnnamed, ModuleRef.name?]
  | named b =>
    dsimp only
    rw [Configuration.isVisible]
    cases hd : c.find? b with
    | none => simp [hne]
    | some d =>
      by_cases hr : c.isReadableBy requester b = true
      · simp only [hr, if_true]
        split <;> simp
      · simp [hne, hr]

theorem check_ne_deniedNotReadable_iff (hne : requester ≠ .named b) :
    check c requester (.named b) package ≠ .deniedNotReadable ↔
      c.isVisible b = true ∧ c.isReadableBy requester b = true := by
  rw [Ne, check_eq_deniedNotReadable_iff, and_iff_right hne, not_not]

theorem any_admitsRef_iff :
    ((d.exports.get? package).any fun x => x.admitsRef requester) = true ↔
      d.ExportsTo package requester := by
  unfold Descriptor.ExportsTo
  rcases d.exports.get? package with _ | _ | targets
  · simp
  · simp [Export.admitsRef]
  · cases requester <;> simp [Export.admitsRef]

/-- Of a target that the requester reads, the exports decide. -/
theorem check_of_isReadableBy (hne : requester ≠ .named b) (hd : c.find? b = some d)
    (hr : c.isReadableBy requester b = true) :
    (check c requester (.named b) package = .permitted ↔ d.ExportsTo package requester) ∧
      (check c requester (.named b) package = .deniedNotExported ↔
        ¬ d.ExportsTo package requester) := by
  unfold check
  simp only [if_neg hne, hd, if_pos hr, ← any_admitsRef_iff]
  split <;> simp_all

theorem isReadableBy_iff (hc : c.Stacked) :
    c.isReadableBy requester b = true ↔ Reads c requester b := by
  cases requester with
  | unnamed k => exact iff_of_true rfl (.unnamed k b)
  | named a =>
    rw [Configuration.isReadableBy, hc.doesRead_iff_transGen]
    constructor
    · exact .named
    · rintro (_ | h)
      exact h

theorem not_allowed_of_unreadable (h : Unreadable c requester target) :
    ¬ Allowed c package requester target := by
  intro ha
  cases h with
  | unnamed a k => cases ha
  | unknown hne hv =>
    cases ha with
    | same => exact hne rfl
    | exported hd _ _ => exact hv (isVisible_of_find? hd)
  | unread hne _ hr =>
    cases ha with
    | same => exact hne rfl
    | exported _ hr' _ =>
      cases hr' with
      | named h => exact hr h

/-- A visible target that is another module is unreadable exactly if it is not read. -/
theorem unreadable_iff (hne : requester ≠ .named b) (hd : c.find? b = some d) :
    Unreadable c requester (.named b) ↔ ¬ Reads c requester b := by
  have hv := isVisible_of_find? hd
  constructor
  · intro h hr
    cases h with
    | unknown _ hn => exact hn hv
    | unread _ _ hn =>
      cases hr with
      | named h => exact hn h
  · intro hn
    cases requester with
    | unnamed k => exact (hn (.unnamed k b)).elim
    | named a =>
      refine .unread (fun he => hne (congrArg ModuleRef.named he)) hv fun h => hn (.named h)

theorem allowed_iff (hne : requester ≠ .named b) (hd : c.find? b = some d) :
    Allowed c package requester (.named b) ↔
      Reads c requester b ∧ d.ExportsTo package requester := by
  constructor
  · intro h
    cases h with
    | same => exact (hne rfl).elim
    | exported he hr hx =>
      obtain rfl := Option.some.inj (hd.symm.trans he)
      exact ⟨hr, hx⟩
  · rintro ⟨hr, hx⟩
    exact .exported hd hr hx

theorem check_cases (hc : c.Stacked) (requester target : ModuleRef) (package : String) :
    check c requester target package = .permitted ∧ Allowed c package requester target ∨
      check c requester target package = .deniedNotReadable ∧ Unreadable c requester target ∨
      check c requester target package = .deniedNotExported ∧
        ¬ Allowed c package requester target ∧ ¬ Unreadable c requester target := by
  by_cases hne : requester = target
  · exact .inl ⟨by simp [check, hne], hne ▸ .same requester⟩
  cases target with
  | unnamed k =>
    cases requester with
    | named a => exact .inr (.inl ⟨rfl, .unnamed a k⟩)
    | unnamed j =>
      refine .inr (.inr ⟨if_neg hne, ?_, nofun⟩)
      intro ha
      cases ha
      exact hne rfl
  | named b =>
    cases hd : c.find? b with
    | none =>
      have hv : ¬ c.isVisible b = true := by simp [Configuration.isVisible, hd]
      exact .inr (.inl ⟨check_eq_deniedNotReadable_iff.2 ⟨hne, fun h => hv h.1⟩, .unknown hne hv⟩)
    | some d =>
      by_cases hr : c.isReadableBy requester b = true
      · have hread := (isReadableBy_iff hc).1 hr
        by_cases hx : d.ExportsTo package requester
        · refine .inl ⟨?_, (allowed_iff hne hd).2 ⟨hread, hx⟩⟩
          exact (check_of_isReadableBy hne hd hr).1.2 hx
        · refine .inr (.inr ⟨?_, fun ha => hx ((allowed_iff hne hd).1 ha).2, ?_⟩)
          · exact (check_of_isReadableBy hne hd hr).2.2 hx
          · exact fun hu => (unreadable_iff hne hd).1 hu hread
      · refine .inr (.inl ⟨check_eq_deniedNotReadable_iff.2 ⟨hne, fun h => hr h.2⟩, ?_⟩)
        exact (unreadable_iff hne hd).2 fun h => hr ((isReadableBy_iff hc).2 h)

/-- Each verdict on a stack is given exactly in the cases that it stands for. -/
theorem check_iff (hc : c.Stacked) (requester target : ModuleRef) (package : String) :
    (check c requester target package = .permitted ↔ Allowed c package requester target) ∧
      (check c requester target package = .deniedNotReadable ↔ Unreadable c requester target) ∧
      (check c requester target package = .deniedNotExported ↔
        ¬ Allowed c package requester target ∧ ¬ Unreadable c requester target) := by
  rcases check_cases hc requester target package with ⟨h, ha⟩ | ⟨h, hu⟩ | ⟨h, ha, hu⟩
  · have hu : ¬ Unreadable c requester target := fun hu => not_allowed_of_unreadable hu ha
    simp [h, ha, hu]
  · have ha : ¬ Allowed c package requester target := not_allowed_of_unreadable hu
    simp [h, ha, hu]
  · simp [h, ha, hu]

theorem check_iff_app :
    app.Stacked ∧ Allowed app "core.spi" (.named "app") (.named "core") ∧
      Unreadable app (.named "core") (.named "app") ∧
      ¬ Allowed app "core.spi" (.unnamed 0) (.named "core") := by
  have ha := (check_iff stacked_app (.named "app") (.named "core") "core.spi").1.1 (by decide)
  have hu := (check_iff stacked_app (.named "core") (.named "app") "app.main").2.1.1 (by decide)
  have hn := (check_iff stacked_app (.unnamed 0) (.named "core") "core.spi").2.2.1 (by decide)
  exact ⟨stacked_app, ha, hu, hn.1⟩

end Access
end ModuleGraph
