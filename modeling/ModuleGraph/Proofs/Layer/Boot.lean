import Mathlib.Algebra.Group.Nat.Defs
import Mathlib.Data.List.Basic
import Mathlib.Data.List.Induction
import ModuleGraph.Layer.Boot

/-! # Runs of the boot state

From the start on, any number of calls may come in any order. The first of them that publishes or
reads the boot layer settles it for good, and an unnamed module gets a number that no other has. So
a call can tell what the calls before it were only by whether the boot layer is settled, on which
layer, and by the numbers used up.
-/

namespace ModuleGraph.Boot

/-- What the boot state can be asked for. Reading the boot layer comes with the stamp of the empty
layer to settle on. -/
inductive Call where
  | newUnnamed (loader : Option String)
  | unnamed
  | publish (l : Layer)
  | layer (stamp : Nat)
  | isInitialized
  deriving DecidableEq

/-- The layer that a call settles the boot layer on, unless it is settled. -/
def Call.offer? : Call → Option Layer
  | publish l => some l
  | layer stamp => some (.empty stamp)
  | _ => none

/-- Whether a call makes a module whatever was called before. -/
def Call.isNew : Call → Bool
  | newUnnamed _ => true
  | _ => false

inductive Answer where
  | module (m : UnnamedModule)
  | published (l : Except LayerError Layer)
  | layer (l : Layer)
  | initialized (b : Bool)

def ask (b : Boot) : Call → Answer × Boot
  | .newUnnamed loader => (.module (b.newUnnamed loader).1, (b.newUnnamed loader).2)
  | .unnamed => (.module b.unnamed.1, b.unnamed.2)
  | .publish l => (.published (b.publish l).1, (b.publish l).2)
  | .layer stamp => (.layer (b.layer (.empty stamp)).1, (b.layer (.empty stamp)).2)
  | .isInitialized => (.initialized b.isInitialized, b)

def run (b : Boot) : List Call → List Answer × Boot
  | [] => ([], b)
  | call :: calls =>
    let (answer, b) := b.ask call
    let (answers, b) := run b calls
    (answer :: answers, b)

def answers (calls : List Call) : List Answer := (run {} calls).1

def after (calls : List Call) : Boot := (run {} calls).2

/-- Answers that settle one boot layer and number the modules apart, each call by its place. -/
structure FixedOnce (calls : List Call) (answers : List Answer) : Prop where
  /-- Publishing fails just where a call before has settled the layer. -/
  published (i : Nat) (l : Layer) (h : calls[i]? = some (.publish l)) :
    answers[i]? = some (.published <| if (calls.take i).any (·.offer?.isSome)
      then .error .bootAlreadyInitialized else .ok l)
  /-- What succeeds is the first of all calls that could settle the layer. -/
  first (i : Nat) (l : Layer) (h : answers[i]? = some (.published (.ok l))) :
    calls[i]? = some (.publish l) ∧
      ∀ (j : Nat) (c : Call), calls[j]? = some c → c.offer?.isSome → i ≤ j
  once (i j : Nat) (l l' : Layer) (h : answers[i]? = some (.published (.ok l)))
    (h' : answers[j]? = some (.published (.ok l'))) : i = j
  /-- All who read the layer get one: the published one or, if there is none, an empty one. -/
  layer : ∃ settled,
    (∀ (i stamp : Nat), calls[i]? = some (.layer stamp) → answers[i]? = some (.layer settled)) ∧
    (∀ (i : Nat) (l : Layer), answers[i]? = some (.published (.ok l)) → l = settled) ∧
    ((∀ (i : Nat) (l : Layer), answers[i]? ≠ some (.published (.ok l))) →
      ∃ stamp, settled = .empty stamp)
  initialized (i : Nat) (h : calls[i]? = some .isInitialized) :
    answers[i]? = some (.initialized ((calls.take i).any (·.offer?.isSome)))
  made (i : Nat) (loader : Option String) (h : calls[i]? = some (.newUnnamed loader)) :
    ∃ number, answers[i]? = some (.module ⟨number, loader⟩)
  /-- The module of the boot loader is the same wherever it is asked for. -/
  boot : ∃ number, ∀ i : Nat,
    calls[i]? = some .unnamed → answers[i]? = some (.module ⟨number, none⟩)
  /-- No two modules have one number. -/
  distinct (i j : Nat) (m m' : UnnamedModule) (h : answers[i]? = some (.module m))
    (h' : answers[j]? = some (.module m')) :
    m.number = m'.number ↔ i = j ∨ calls[i]? = some .unnamed ∧ calls[j]? = some .unnamed

variable {b : Boot} {calls : List Call} {c : Call} {i j : Nat}

/-! ## Places -/

theorem run_concat (b : Boot) (calls : List Call) (c : Call) :
    (run b (calls ++ [c])).2 = ((run b calls).2.ask c).2 := by
  induction calls generalizing b with
  | nil => rfl
  | cons d calls ih => exact ih _

theorem getElem?_run (b : Boot) (calls : List Call) (i : Nat) :
    (run b calls).1[i]? = calls[i]?.map fun c => ((run b (calls.take i)).2.ask c).1 := by
  induction calls generalizing b i with
  | nil => rfl
  | cons d calls ih =>
    cases i with
    | zero => rfl
    | succ i => exact ih _ i

/-- A call is answered by the state that those before it left. -/
theorem getElem?_answers (h : calls[i]? = some c) :
    (answers calls)[i]? = some ((after (calls.take i)).ask c).1 := by
  rw [answers, getElem?_run, h]
  rfl

theorem exists_call {a : Answer} (h : (answers calls)[i]? = some a) :
    ∃ c, calls[i]? = some c ∧ ((after (calls.take i)).ask c).1 = a := by
  rw [answers, getElem?_run] at h
  exact Option.map_eq_some_iff.1 h

/-! ## Numbers -/

def Makes (calls : List Call) (c : Call) : Prop :=
  c.isNew ∨ c = .unnamed ∧ .unnamed ∉ calls

instance : Decidable (Makes calls c) := inferInstanceAs (Decidable (_ ∨ _))

def made (calls : List Call) : Nat :=
  calls.countP Call.isNew + if .unnamed ∈ calls then 1 else 0

/-- The calls before the boot loader's module is first asked for. -/
def beforeUnnamed (calls : List Call) : List Call := calls.take (calls.idxOf .unnamed)

/-- The number that a module gets after some calls, in 64 bits. -/
def number (calls : List Call) : Nat := (1 + made calls) % 2 ^ 64

theorem made_concat (calls : List Call) (c : Call) :
    made (calls ++ [c]) = made calls + if Makes calls c then 1 else 0 := by
  cases c <;> by_cases hu : Call.unnamed ∈ calls <;>
    simp [made, Makes, Call.isNew, List.countP_append, hu]

theorem made_le_length (calls : List Call) : made calls ≤ calls.length := by
  induction calls using List.reverseRecOn with
  | nil => simp [made]
  | append_singleton calls c ih =>
    rw [made_concat, List.length_append, List.length_singleton]
    split <;> omega

theorem made_le_append (calls more : List Call) : made calls ≤ made (calls ++ more) := by
  induction more using List.reverseRecOn with
  | nil => exact Nat.le_of_eq (by rw [List.append_nil])
  | append_singleton more c ih =>
    rw [← List.append_assoc, made_concat]
    omega

/-- A place that makes a module has made less before it than any later place. -/
theorem made_lt_made (h : calls[i]? = some c) (hm : Makes (calls.take i) c) (hij : i < j) :
    made (calls.take i) < made (calls.take j) := by
  have hs : calls.take (i + 1) = calls.take i ++ [c] := by
    rw [List.take_add_one, h, Option.toList_some]
  have hp : calls.take j = calls.take (i + 1) ++ (calls.take j).drop (i + 1) := by
    conv_lhs => rw [← List.take_append_drop (i + 1) (calls.take j)]
    rw [List.take_take, Nat.min_eq_left hij]
  calc made (calls.take i) < made (calls.take i ++ [c]) := by
        rw [made_concat, if_pos hm]
        omega
    _ = made (calls.take (i + 1)) := by rw [hs]
    _ ≤ made (calls.take j) := by
        rw [hp]
        exact made_le_append _ _

theorem number_eq (h : calls.length < 2 ^ 64 - 1) : number calls = 1 + made calls := by
  have := made_le_length calls
  rw [number, Nat.mod_eq_of_lt]
  omega

/-- Places that make modules give them numbers that tell the places apart. -/
theorem eq_of_number_eq {d : Call} (h : calls.length < 2 ^ 64) (hi : calls[i]? = some c)
    (hj : calls[j]? = some d) (hc : Makes (calls.take i) c) (hd : Makes (calls.take j) d)
    (he : number (calls.take i) = number (calls.take j)) : i = j := by
  obtain ⟨hil, -⟩ := List.getElem?_eq_some_iff.1 hi
  obtain ⟨hjl, -⟩ := List.getElem?_eq_some_iff.1 hj
  rw [number_eq (by grind), number_eq (by grind)] at he
  rcases Nat.lt_trichotomy i j with hij | hij | hij
  · have := made_lt_made hi hc hij
    omega
  · exact hij
  · have := made_lt_made hj hd hij
    omega

theorem beforeUnnamed_of_not_mem (h : .unnamed ∉ calls) : beforeUnnamed calls = calls := by
  rw [beforeUnnamed, List.idxOf_eq_length h, List.take_length]

theorem beforeUnnamed_append_of_mem (h : .unnamed ∈ calls) (more : List Call) :
    beforeUnnamed (calls ++ more) = beforeUnnamed calls := by
  rw [beforeUnnamed, List.idxOf_append_of_mem h, List.take_append_of_le_length List.idxOf_le_length,
    beforeUnnamed]

theorem beforeUnnamed_append_cons (h : .unnamed ∉ calls) (more : List Call) :
    beforeUnnamed (calls ++ .unnamed :: more) = calls := by
  rw [beforeUnnamed, List.idxOf_append_of_notMem h, List.idxOf_cons_self, Nat.add_zero,
    List.take_left]

/-- Wherever the boot loader's module is asked for, it is first asked for at one place. -/
theorem beforeUnnamed_take (h : calls[i]? = some .unnamed) :
    beforeUnnamed (calls.take i) = beforeUnnamed calls := by
  obtain ⟨hi, hc⟩ := List.getElem?_eq_some_iff.1 h
  have hs : calls.take i ++ .unnamed :: calls.drop (i + 1) = calls := by
    rw [← hc, List.getElem_cons_drop, List.take_append_drop]
  by_cases hu : .unnamed ∈ calls.take i
  · conv_rhs => rw [← hs, beforeUnnamed_append_of_mem hu]
  · conv_rhs => rw [← hs, beforeUnnamed_append_cons hu]
    exact beforeUnnamed_of_not_mem hu

/-! ## The state -/

/-- A call settles the boot layer only where it is not settled. -/
theorem layer?_ask (b : Boot) (c : Call) : (b.ask c).2.layer? = b.layer?.or c.offer? := by
  cases c with
  | newUnnamed _ | isInitialized => exact Option.or_none.symm
  | unnamed =>
    rw [ask, unnamed]
    split <;> exact Option.or_none.symm
  | publish l =>
    rw [ask, publish]
    split <;> simp_all [Call.offer?]
  | layer stamp =>
    rw [ask, layer]
    split <;> simp_all [Call.offer?]

/-- The boot loader's module is made only where it is not made yet. -/
theorem unnamed?_ask (b : Boot) (c : Call) : (b.ask c).2.unnamed? =
    b.unnamed?.or (if c = .unnamed then some ⟨b.next.toNat, none⟩ else none) := by
  cases c with
  | newUnnamed _ | isInitialized => exact Option.or_none.symm
  | unnamed =>
    rw [ask, unnamed]
    split <;> simp_all [Boot.newUnnamed]
  | publish l =>
    rw [ask, publish]
    split <;> exact Option.or_none.symm
  | layer stamp =>
    rw [ask, layer]
    split <;> exact Option.or_none.symm

/-- Making a module uses up one number. -/
theorem next_ask (b : Boot) (c : Call) : (b.ask c).2.next =
    b.next + if c.isNew ∨ c = .unnamed ∧ b.unnamed? = none then 1 else 0 := by
  cases c with
  | newUnnamed _ => rfl
  | isInitialized => exact (UInt64.add_zero _).symm
  | unnamed =>
    rw [ask, unnamed]
    split <;> simp_all [Call.isNew, Boot.newUnnamed]
  | publish l =>
    rw [ask, publish]
    split <;> exact (UInt64.add_zero _).symm
  | layer stamp =>
    rw [ask, layer]
    split <;> exact (UInt64.add_zero _).symm

/-- The layer that some calls from the start on settle. -/
def settled? (calls : List Call) : Option Layer := calls.findSome? Call.offer?

/-- The state that calls from the start on leave, in terms of the calls alone. -/
structure Left (calls : List Call) (b : Boot) : Prop where
  layer? : b.layer? = settled? calls
  next : b.next.toNat = number calls
  unnamed? : b.unnamed? =
    if .unnamed ∈ calls then some ⟨number (beforeUnnamed calls), none⟩ else none

theorem left_start : Left [] {} where
  layer? := rfl
  next := rfl
  unnamed? := rfl

theorem Left.unnamed?_eq_none_iff (h : Left calls b) : b.unnamed? = none ↔ .unnamed ∉ calls := by
  rw [h.unnamed?, ite_eq_right_iff]
  exact forall_congr' fun _ => ⟨nofun, nofun⟩

theorem Left.ask (h : Left calls b) (c : Call) : Left (calls ++ [c]) (b.ask c).2 where
  layer? := by
    rw [layer?_ask, h.layer?, settled?, settled?, List.findSome?_append, List.findSome?_singleton]
  next := by
    have hm : (c.isNew ∨ c = .unnamed ∧ b.unnamed? = none) ↔ Makes calls c :=
      or_congr_right (and_congr_right' h.unnamed?_eq_none_iff)
    simp only [next_ask, hm, UInt64.toNat_add, h.next, number, made_concat]
    split
    · exact (Nat.mod_add_mod _ _ _).trans (congrArg (· % 2 ^ 64) (Nat.add_assoc _ _ _))
    · exact Nat.mod_mod _ _
  unnamed? := by
    rw [unnamed?_ask, h.unnamed?, h.next]
    by_cases hu : .unnamed ∈ calls
    · rw [if_pos hu, Option.some_or, if_pos (List.mem_append_left _ hu),
        beforeUnnamed_append_of_mem hu]
    · rw [if_neg hu, Option.none_or]
      by_cases hc : c = .unnamed
      · rw [if_pos hc, hc, beforeUnnamed_append_cons hu, if_pos (by simp)]
      · rw [if_neg hc, if_neg (by simp [hu, Ne.symm hc])]

theorem left_after (calls : List Call) : Left calls (after calls) := by
  induction calls using List.reverseRecOn with
  | nil => exact left_start
  | append_singleton calls c ih =>
    rw [after, run_concat]
    exact ih.ask c

/-! ## The answers -/

theorem answers_newUnnamed {loader : Option String} (h : calls[i]? = some (.newUnnamed loader)) :
    (answers calls)[i]? = some (.module ⟨number (calls.take i), loader⟩) := by
  rw [getElem?_answers h, ← (left_after _).next]
  rfl

theorem answers_unnamed (h : calls[i]? = some .unnamed) :
    (answers calls)[i]? = some (.module ⟨number (beforeUnnamed calls), none⟩) := by
  have hl := left_after (calls.take i)
  rw [getElem?_answers h, ← beforeUnnamed_take h, ask, unnamed, hl.unnamed?]
  by_cases hu : .unnamed ∈ calls.take i
  · rw [if_pos hu]
  · rw [if_neg hu, beforeUnnamed_of_not_mem hu, ← hl.next]
    rfl

theorem answers_publish {l : Layer} (h : calls[i]? = some (.publish l)) :
    (answers calls)[i]? = some (.published <| if (settled? (calls.take i)).isSome
      then .error .bootAlreadyInitialized else .ok l) := by
  rw [getElem?_answers h, ask, publish, (left_after _).layer?]
  cases settled? (calls.take i) <;> rfl

theorem answers_layer {stamp : Nat} (h : calls[i]? = some (.layer stamp)) :
    (answers calls)[i]? = some (.layer ((settled? (calls.take i)).getD (.empty stamp))) := by
  rw [getElem?_answers h, ask, layer, (left_after _).layer?]
  cases settled? (calls.take i) <;> rfl

theorem answers_isInitialized (h : calls[i]? = some .isInitialized) :
    (answers calls)[i]? = some (.initialized (settled? (calls.take i)).isSome) := by
  rw [getElem?_answers h, ask, isInitialized, (left_after _).layer?]

/-- Only what is published into an unsettled state is given back. -/
theorem call_of_published {l : Layer} (h : (answers calls)[i]? = some (.published (.ok l))) :
    calls[i]? = some (.publish l) ∧ settled? (calls.take i) = none := by
  obtain ⟨c, hc, ha⟩ := exists_call h
  cases c with
  | newUnnamed _ | unnamed | layer _ | isInitialized => cases ha
  | publish p =>
    rw [answers_publish hc] at h
    split at h
    · cases h
    · next hn =>
      obtain rfl : p = l := by simpa using h
      exact ⟨hc, Option.not_isSome_iff_eq_none.1 hn⟩

/-- A module that a call gives was made there, or where the boot loader's was first asked for. -/
theorem place_of_module {m : UnnamedModule} (h : (answers calls)[i]? = some (.module m)) :
    ∃ (p : Nat) (c : Call), calls[p]? = some c ∧ Makes (calls.take p) c ∧
      m.number = number (calls.take p) ∧
      (calls[i]? = some c ∧ c.isNew ∧ p = i ∨
        calls[i]? = some .unnamed ∧ c = .unnamed ∧ p = calls.idxOf .unnamed) := by
  obtain ⟨c, hc, ha⟩ := exists_call h
  cases c with
  | publish _ | layer _ | isInitialized => cases ha
  | newUnnamed loader =>
    obtain rfl : _ = m := by simpa using (answers_newUnnamed hc).symm.trans h
    exact ⟨i, _, hc, .inl rfl, rfl, .inl ⟨hc, rfl, rfl⟩⟩
  | unnamed =>
    obtain rfl : _ = m := by simpa using (answers_unnamed hc).symm.trans h
    have hu : .unnamed ∈ calls := List.mem_of_getElem? hc
    have hn : .unnamed ∉ calls.take (calls.idxOf .unnamed) :=
      (List.mem_take_iff_idxOf_lt hu).not.2 (Nat.lt_irrefl _)
    have hk : calls[calls.idxOf .unnamed]? = some .unnamed := List.getElem?_idxOf hu
    exact ⟨_, .unnamed, hk, .inr ⟨rfl, hn⟩, by rw [beforeUnnamed], .inr ⟨hc, rfl, rfl⟩⟩

theorem number_eq_iff (h : calls.length < 2 ^ 64) {m m' : UnnamedModule}
    (hi : (answers calls)[i]? = some (.module m)) (hj : (answers calls)[j]? = some (.module m')) :
    m.number = m'.number ↔ i = j ∨ calls[i]? = some .unnamed ∧ calls[j]? = some .unnamed := by
  constructor
  · intro he
    obtain ⟨p, c, hp, hc, hm, hip⟩ := place_of_module hi
    obtain ⟨q, d, hq, hd, hm', hjq⟩ := place_of_module hj
    rw [hm, hm'] at he
    obtain rfl := eq_of_number_eq h hp hq hc hd he
    obtain rfl : c = d := Option.some.inj (hp.symm.trans hq)
    rcases hip with ⟨-, hn, rfl⟩ | ⟨hu, hcu, -⟩
    · rcases hjq with ⟨-, -, rfl⟩ | ⟨-, rfl, -⟩
      · exact .inl rfl
      · cases hn
    · rcases hjq with ⟨-, hn, -⟩ | ⟨hu', -, -⟩
      · rw [hcu] at hn
        cases hn
      · exact .inr ⟨hu, hu'⟩
  · rintro (rfl | ⟨hu, hu'⟩)
    · obtain rfl : m = m' := by simpa using hi.symm.trans hj
      rfl
    · obtain rfl : _ = m := by simpa using (answers_unnamed hu).symm.trans hi
      obtain rfl : _ = m' := by simpa using (answers_unnamed hu').symm.trans hj
      rfl

/-- What settles the boot layer is offered at some place, and nothing before it is. -/
theorem exists_of_settled? {l : Layer} (h : settled? calls = some l) :
    ∃ (i : Nat) (c : Call), calls[i]? = some c ∧ c.offer? = some l ∧
      settled? (calls.take i) = none := by
  obtain ⟨before, c, rest, rfl, hc, hn⟩ := List.findSome?_eq_some_iff.1 h
  refine ⟨before.length, c, ?_, hc, ?_⟩
  · rw [List.getElem?_append_right (Nat.le_refl _), Nat.sub_self, List.getElem?_cons_zero]
  · rw [List.take_left, settled?, List.findSome?_eq_none_iff]
    exact hn

/-- The first offer settles the boot layer. -/
theorem settled?_of_getElem? {l : Layer} (h : calls[i]? = some c) (hc : c.offer? = some l) :
    settled? calls = some ((settled? (calls.take i)).getD l) := by
  obtain ⟨hi, rfl⟩ := List.getElem?_eq_some_iff.1 h
  conv_lhs => rw [← List.take_append_drop i calls, ← List.getElem_cons_drop hi]
  rw [settled?, List.findSome?_append, List.findSome?_cons, hc, settled?]
  cases (calls.take i).findSome? Call.offer? <;> rfl

theorem le_of_settled?_eq_none (h : settled? (calls.take i) = none) (hj : calls[j]? = some c)
    (hc : c.offer?.isSome) : i ≤ j := by
  refine Nat.le_of_not_lt fun hlt => ?_
  have hm : c ∈ calls.take i := List.mem_of_getElem? (by rw [List.getElem?_take_of_lt hlt, hj])
  rw [List.findSome?_eq_none_iff.1 h c hm] at hc
  cases hc

theorem isSome_settled? (calls : List Call) :
    (settled? calls).isSome = calls.any (·.offer?.isSome) := by
  rw [Bool.eq_iff_iff, settled?, List.isSome_findSome?, List.any_eq_true]

/-- The layer that readers get: the one settled or, if no call offers one, an empty one. -/
theorem settles_layer (calls : List Call) : ∃ l,
    (∀ (i stamp : Nat), calls[i]? = some (.layer stamp) →
      (answers calls)[i]? = some (.layer l)) ∧
    (∀ (i : Nat) (p : Layer), (answers calls)[i]? = some (.published (.ok p)) → p = l) ∧
    ((∀ (i : Nat) (p : Layer), (answers calls)[i]? ≠ some (.published (.ok p))) →
      ∃ stamp, l = .empty stamp) := by
  refine ⟨(settled? calls).getD (.empty 0), fun i stamp h => ?_, fun i p h => ?_, fun hn => ?_⟩
  · rw [settled?_of_getElem? h rfl]
    exact answers_layer h
  · obtain ⟨hc, hs⟩ := call_of_published h
    rw [settled?_of_getElem? hc rfl, hs]
    rfl
  · cases hs : settled? calls with
    | none => exact ⟨0, rfl⟩
    | some l =>
      obtain ⟨i, c, hi, hc, hb⟩ := exists_of_settled? hs
      cases c with
      | newUnnamed _ | unnamed | isInitialized => cases hc
      | layer stamp =>
        obtain rfl : Layer.empty stamp = l := by simpa [Call.offer?] using hc
        exact ⟨stamp, rfl⟩
      | publish p =>
        refine absurd (answers_publish hi) ?_
        rw [hb]
        exact hn i p

/-- Whatever is called in whatever order, the boot layer is settled once, and the unnamed modules
are numbered apart as long as 64 bits suffice. -/
theorem fixed_once (h : calls.length < 2 ^ 64) : FixedOnce calls (answers calls) where
  published i l hi := by
    rw [← isSome_settled?]
    exact answers_publish hi
  first i l hi := by
    obtain ⟨hc, hs⟩ := call_of_published hi
    exact ⟨hc, fun j c => le_of_settled?_eq_none hs⟩
  once i j l l' hi hj := by
    obtain ⟨hc, hs⟩ := call_of_published hi
    obtain ⟨hc', hs'⟩ := call_of_published hj
    exact Nat.le_antisymm (le_of_settled?_eq_none hs hc' rfl) (le_of_settled?_eq_none hs' hc rfl)
  layer := settles_layer calls
  initialized i hi := by
    rw [← isSome_settled?]
    exact answers_isInitialized hi
  made i loader hi := ⟨_, answers_newUnnamed hi⟩
  boot := ⟨_, fun i hi => answers_unnamed hi⟩
  distinct i j m m' hi hj := number_eq_iff h hi hj

/-- A layer is read before one is published, and modules are made around the boot loader's. -/
def readFirst : List Call :=
  [.newUnnamed (some "app"), .isInitialized, .layer 7, .publish (.empty 1), .unnamed,
    .isInitialized, .newUnnamed none, .layer 8, .unnamed]

theorem fixed_once_readFirst : readFirst.length < 2 ^ 64 ∧
    answers readFirst = [.module ⟨1, some "app"⟩, .initialized false, .layer (.empty 7),
      .published (.error .bootAlreadyInitialized), .module ⟨2, none⟩, .initialized true,
      .module ⟨3, none⟩, .layer (.empty 7), .module ⟨2, none⟩] ∧
    FixedOnce readFirst (answers readFirst) :=
  ⟨by decide, rfl, fixed_once (by decide)⟩

end ModuleGraph.Boot
