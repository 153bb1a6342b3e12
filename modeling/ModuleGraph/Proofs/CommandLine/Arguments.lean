import Mathlib.Data.List.TakeWhile
import ModuleGraph.CommandLine.Arguments

/-! # Arguments as laid out

Options may be written in several ways and in any order. What arguments give is told by how they
are laid out: piece by piece, each option with the value that its piece spells.
-/

namespace ModuleGraph.CommandLine

/-- An argument that is a value or a path. -/
def IsWord (s : String) : Prop := s = "-" ∨ s.toList.head? ≠ some '-'

instance : DecidablePred IsWord := fun _ => inferInstanceAs (Decidable (_ ∨ _))

/-- The ways to write an option with its value. The flag has an empty one. -/
inductive Spells : String → String → List String → Prop
  | apart {name value : String} : name ≠ "from-unnamed" → IsWord value →
      Spells name value ["--" ++ name, value]
  | joined {name value : String} : name ≠ "from-unnamed" →
      Spells name value ["--" ++ name ++ "=" ++ value]
  | letter {value : String} : IsWord value → Spells "root" value ["-r", value]
  | letterJoined {value : String} : value ≠ "" → value.toList.head? ≠ some '=' →
      Spells "root" value ["-r" ++ value]
  | letterEquals {value : String} : Spells "root" value ["-r=" ++ value]
  | flag : Spells "from-unnamed" "" ["--from-unnamed"]

inductive Options (names : List String) : List (String × String) → List String → Prop
  | nil : Options names [] []
  | cons {name value : String} {piece args : List String} {os : List (String × String)} :
      name ∈ names → Spells name value piece → Options names os args →
      Options names ((name, value) :: os) (piece ++ args)

/-- Options and words. After two dashes there are only words. -/
inductive Operands (names : List String) :
    List (String × String) → List String → List String → Prop
  | nil : Operands names [] [] []
  | words (ws : List String) : Operands names [] ws ("--" :: ws)
  | word {w : String} {ws args : List String} {os : List (String × String)} :
      IsWord w → Operands names os ws args → Operands names os (w :: ws) (w :: args)
  | option {name value : String} {ws piece args : List String} {os : List (String × String)} :
      name ∈ names → Spells name value piece → Operands names os ws args →
      Operands names ((name, value) :: os) ws (piece ++ args)

/-- Only roots repeat, and the path of a parent is not empty. -/
structure Consistent (os : List (String × String)) : Prop where
  once : os.Pairwise fun a b => a.1 = b.1 → a.1 ∈ ["root", "parent-root"]
  nonempty : ∀ o ∈ os, o.1 = "parent" → o.2 ≠ ""

def valuesOf (name : String) (os : List (String × String)) : List String :=
  (os.filter (·.1 = name)).map (·.2)

variable {name value w : String} {piece args left : List String} {s t : Switch} {g g' : Given}
  {os : List (String × String)} {ws : List String} {allowed : List Switch} {stops : Bool}
  {cs : List Char}

/-! ### The form of an argument -/

namespace Argument

def text : Argument → String
  | word w => w
  | long name none => "--" ++ name
  | long name (some value) => "--" ++ name ++ "=" ++ value
  | short c cs => .ofList ('-' :: c :: cs)
  | separator => "--"

/-- The form of some argument. -/
def IsProper : Argument → Prop
  | word w => IsWord w
  | long name value => '=' ∉ name.toList ∧ (value = none → name ≠ "")
  | short c _ => c ≠ '-'
  | separator => True

theorem of_dashes {s : String} (h : s.toList = '-' :: '-' :: cs) (hne : cs ≠ []) :
    of s = match cs.dropWhile (· != '=') with
      | [] => long (.ofList cs) none
      | _ :: value => long (.ofList (cs.takeWhile (· != '='))) (some (.ofList value)) := by
  obtain ⟨c, cs, rfl⟩ := List.exists_cons_of_ne_nil hne
  rw [of, h]
  rfl

theorem of_text {a : Argument} (h : a.IsProper) : of a.text = a := by
  cases a with
  | separator => rfl
  | word w =>
    rcases h with rfl | h
    · rfl
    rw [text, of]
    split
    · next he => simp [he] at h
    · next he => simp [he] at h
    · next he => simp [he] at h
    · rfl
  | short c cs =>
    rw [text, of, String.toList_ofList]
    split
    · next he =>
      cases he
      exact absurd rfl h
    · next he =>
      cases he
      exact absurd rfl h
    · next he =>
      cases he
      rfl
    · next he => exact absurd rfl (he _ _)
  | long name value =>
    obtain ⟨hn, hv⟩ := h
    have hp : ∀ c ∈ name.toList, (c != '=') = true :=
      fun c hc => bne_iff_ne.2 fun he => hn (he ▸ hc)
    cases value with
    | none =>
      have hd : ("--" ++ name).toList = '-' :: '-' :: name.toList := by simp
      have ht : name.toList.dropWhile (· != '=') = [] := List.dropWhile_eq_nil_iff.2 hp
      rw [text, of_dashes hd (by simpa using hv rfl), ht]
      simp
    | some value =>
      have hd : ("--" ++ name ++ "=" ++ value).toList =
          '-' :: '-' :: (name.toList ++ '=' :: value.toList) := by simp
      rw [text, of_dashes hd (by simp), List.dropWhile_append_of_pos hp,
        List.takeWhile_append_of_pos hp]
      simp

theorem text_of (s : String) : (of s).text = s ∧ (of s).IsProper := by
  have hs : s = .ofList s.toList := String.ofList_toList.symm
  by_cases hd : ∃ cs, s.toList = '-' :: '-' :: cs ∧ cs ≠ []
  · obtain ⟨cs, hd, hne⟩ := hd
    have ht := List.takeWhile_append_dropWhile (p := (· != '=')) (l := cs)
    have hn : '=' ∉ cs.takeWhile (· != '=') := fun h => by
      simpa using List.mem_takeWhile_imp h
    rw [of_dashes hd hne]
    rw [hd] at hs
    cases hw : cs.dropWhile (· != '=') with
    | nil =>
      rw [hw, List.append_nil] at ht
      rw [ht] at hn
      refine ⟨?_, ?_, fun _ => ?_⟩
      · rw [hs, text, String.ext_iff]
        simp
      · simpa using hn
      · simpa using hne
    | cons c value =>
      have hc : c = '=' := by
        have hh := List.head?_dropWhile_not (· != '=') cs
        rw [hw] at hh
        simpa using hh
      subst hc
      rw [hw] at ht
      refine ⟨?_, ?_, nofun⟩
      · rw [hs, text, String.ext_iff]
        simpa using ht
      · simpa using hn
  rw [of]
  split
  · next he => exact ⟨(hs.trans (congrArg _ he)).symm, trivial⟩
  · next cs hne he => exact absurd ⟨cs, he, hne⟩ hd
  · next c cs h₁ h₂ he =>
    refine ⟨(hs.trans (congrArg _ he)).symm, ?_⟩
    rintro rfl
    exact h₂ rfl
  · next h₁ h₂ h₃ =>
    refine ⟨rfl, ?_⟩
    cases hl : s.toList with
    | nil => exact .inr (by simp [hl])
    | cons c cs =>
      by_cases hc : c = '-'
      · subst hc
        cases cs with
        | nil => exact .inl (hs.trans (congrArg _ hl))
        | cons d cs => exact (h₃ d cs hl).elim
      · exact .inr (by simpa [hl] using hc)

end Argument

/-! ### Options by their names -/

def named (l : List (Switch × String)) : List (String × String) := l.map fun e => (e.1.long, e.2)

/-- The names of options, but for those that answer at once. -/
def namesOf (l : List Switch) : List String := (l.filter (! ·.isNotice)).map Switch.long

namespace Switch

theorem long_inj : s.long = t.long ↔ s = t := by
  refine ⟨fun h => ?_, congrArg long⟩
  cases s <;> cases t <;> first | rfl | exact absurd h (by decide)

theorem isRepeatable_iff : s.isRepeatable = true ↔ s.long ∈ ["root", "parent-root"] := by
  cases s <;> decide

theorem isPath_iff : s.isPath = true ↔ s.long = "parent" := by
  cases s <;> decide

theorem isFlag_iff (h : s.isNotice = false) : s.isFlag = true ↔ s.long = "from-unnamed" := by
  cases s <;> first | decide | exact absurd h (by decide)

theorem isNotice_of_isFlag (h : s.isFlag = false) : s.isNotice = false := by
  cases s <;> first | rfl | exact absurd h (by decide)

theorem letter?_eq_some_iff (h : s.isNotice = false) {c : Char} :
    s.letter? = some c ↔ s = root ∧ c = 'r' := by
  cases s <;> simp_all [letter?, isNotice, eq_comm]

end Switch

theorem mem_namesOf : name ∈ namesOf allowed ↔
    ∃ s ∈ allowed, s.isNotice = false ∧ s.long = name := by
  simp [namesOf, and_assoc]

theorem find?_eq_some {p : Switch → Bool} (h : s ∈ allowed) (hp : ∀ t, p t = true ↔ t = s) :
    allowed.find? p = some s := by
  cases hf : allowed.find? p with
  | none => exact absurd ((hp s).2 rfl) (List.find?_eq_none.1 hf s h)
  | some t => rw [(hp t).1 (List.find?_some hf)]

theorem find?_long (h : s ∈ allowed) : allowed.find? (·.long = s.long) = some s :=
  find?_eq_some h fun t => by rw [decide_eq_true_eq, Switch.long_inj]

theorem find?_letter (h : .root ∈ allowed) :
    allowed.find? (·.letter? = some 'r') = some .root :=
  find?_eq_some h fun t => by cases t <;> decide

namespace Consistent

theorem of_append {os os' : List (String × String)} (h : Consistent (os ++ os')) :
    Consistent os where
  once := (List.pairwise_append.1 h.once).1
  nonempty := fun o ho => h.nonempty o (List.mem_append_left _ ho)

theorem named_append_iff {l : List (Switch × String)} (h : Consistent (named l)) :
    Consistent (named (l ++ [(s, value)])) ↔
      ((∃ e ∈ l, e.1 = s) → s.isRepeatable = true) ∧ (s.isPath = true → value ≠ "") := by
  have hn : named (l ++ [(s, value)]) = named l ++ [(s.long, value)] := by simp [named]
  rw [hn, Switch.isRepeatable_iff, Switch.isPath_iff]
  constructor
  · intro hc
    refine ⟨?_, hc.nonempty (s.long, value) (List.mem_append_right _ (List.mem_singleton_self _))⟩
    rintro ⟨e, he, rfl⟩
    exact (List.pairwise_append.1 hc.once).2.2 (e.1.long, e.2)
      (List.mem_map_of_mem he) _ (List.mem_singleton_self _) rfl
  · rintro ⟨hr, hp⟩
    refine ⟨List.pairwise_append.2 ⟨h.once, List.pairwise_singleton _ _, ?_⟩, ?_⟩
    · intro a ha b hb hab
      obtain ⟨e, he, rfl⟩ := List.mem_map.1 ha
      obtain rfl := List.mem_singleton.1 hb
      have hs := Switch.long_inj.1 hab
      rw [hs]
      exact hr ⟨e, he, hs⟩
    · intro o ho
      rcases List.mem_append.1 ho with ho | ho
      · exact h.nonempty o ho
      · obtain rfl := List.mem_singleton.1 ho
        exact hp

end Consistent

namespace Given

/-- The options read, with one left pending. -/
def all (g : Given) : List (Switch × String) := g.switches ++ g.pending?.toList

theorem has_iff : g.has s = true ↔ ∃ e ∈ g.switches, e.1 = s := by
  rw [has, value?, List.lookup_isSome_iff]
  simp

theorem add?_eq_some_iff (hg : Consistent (named g.switches)) : g.add? s value = some g' ↔
    Consistent (named (g.switches ++ [(s, value)])) ∧
      g' = { g with switches := g.switches ++ [(s, value)] } := by
  rw [hg.named_append_iff, ← has_iff, add?]
  split_ifs with hr hp
  · simp [hr]
  · simp [hp]
  · have hr' : g.has s = true → s.isRepeatable = true := by simpa using hr
    have hp' : s.isPath = true → value ≠ "" := fun h he => hp ⟨h, he⟩
    exact ⟨fun h => ⟨⟨hr', hp'⟩, (Option.some.inj h).symm⟩, fun h => congrArg some h.2.symm⟩

theorem settle?_eq_some_iff (hg : Consistent (named g.switches)) : g.settle? = some g' ↔
    Consistent (named g.all) ∧ g' = ⟨g.all, g.path?, none⟩ := by
  obtain ⟨l, p, pending⟩ := g
  cases pending with
  | none =>
    have ha : (⟨l, p, none⟩ : Given).all = l := List.append_nil l
    rw [ha]
    exact ⟨fun h => ⟨hg, (Option.some.inj h).symm⟩, fun h => congrArg some h.2.symm⟩
  | some e => exact add?_eq_some_iff hg

/-- What options and words do to what was read before: they come behind it. -/
structure Grows (g g' : Given) (os : List (String × String)) (ws : List String) : Prop where
  sound : Consistent (named g'.switches)
  options : named g'.all = named g.all ++ os
  words : g'.path?.toList = g.path?.toList ++ ws

theorem Grows.refl (hg : Consistent (named g.switches)) : g.Grows g [] [] :=
  ⟨hg, (List.append_nil _).symm, (List.append_nil _).symm⟩

theorem Grows.trans {g'' : Given} {os' : List (String × String)} {ws' : List String}
    (h : g.Grows g' os ws) (h' : g'.Grows g'' os' ws') :
    g.Grows g'' (os ++ os') (ws ++ ws') where
  sound := h'.sound
  options := by rw [h'.options, h.options, List.append_assoc]
  words := by rw [h'.words, h.words, List.append_assoc]

theorem grows_of_put? (hg : Consistent (named g.switches)) {isPending : Bool}
    (h : g.put? s value isPending = some g') : g.Grows g' [(s.long, value)] [] := by
  obtain ⟨g₁, h₁, h⟩ := Option.bind_eq_some_iff.1 h
  obtain ⟨hc, rfl⟩ := (settle?_eq_some_iff hg).1 h₁
  cases isPending with
  | true =>
    obtain rfl := Option.some.inj h
    exact ⟨hc, by simp [all, named], (List.append_nil _).symm⟩
  | false =>
    obtain ⟨hc', rfl⟩ := (add?_eq_some_iff hc).1 h
    exact ⟨hc', by simp [all, named], (List.append_nil _).symm⟩

theorem exists_put? (hg : Consistent (named g.switches))
    (h : Consistent (named g.all ++ [(s.long, value)])) (isPending : Bool) :
    ∃ g', g.put? s value isPending = some g' := by
  have h₁ := (settle?_eq_some_iff hg).2 ⟨h.of_append, rfl⟩
  rw [put?, h₁]
  cases isPending with
  | true => exact ⟨_, rfl⟩
  | false =>
    refine ⟨_, (add?_eq_some_iff h.of_append).2 ⟨?_, rfl⟩⟩
    simpa [named] using h

theorem addWord?_eq_some_iff : g.addWord? w = some g' ↔
    (g.path? = none ∧ w ≠ "") ∧ g' = { g with path? := some w } := by
  rw [addWord?]
  split_ifs with h
  · rcases h with h | rfl
    · simp [Option.isSome_iff_ne_none.1 h]
    · simp
  · have hw : g.path? = none ∧ w ≠ "" := by simpa using h
    exact ⟨fun h => ⟨hw, (Option.some.inj h).symm⟩, fun h => congrArg some h.2.symm⟩

theorem grows_of_addWord? (hg : Consistent (named g.switches)) (h : g.addWord? w = some g') :
    g.Grows g' [] [w] := by
  obtain ⟨⟨hp, -⟩, rfl⟩ := addWord?_eq_some_iff.1 h
  exact ⟨hg, (List.append_nil _).symm, by simp [hp]⟩

end Given

/-! ### Reading -/

theorem isWord_iff : IsWord w ↔ Argument.of w = .word w := by
  constructor
  · exact fun h => Argument.of_text (a := .word w) h
  · intro h
    have hp := (Argument.text_of w).2
    rw [h] at hp
    exact hp

theorem eq_of_word {v : String} (h : Argument.of v = .word w) : v = w ∧ IsWord w := by
  obtain ⟨ht, hp⟩ := Argument.text_of v
  rw [h] at ht hp
  exact ⟨ht.symm, hp⟩

theorem of_long (s : Switch) (value : Option String) :
    Argument.of (Argument.long s.long value).text = .long s.long value :=
  Argument.of_text ⟨by cases s <;> decide, fun _ => by cases s <;> decide⟩

theorem of_letter (rest : String) : Argument.of ("-r" ++ rest) = .short 'r' rest.toList := by
  have ht : "-r" ++ rest = (Argument.short 'r' rest.toList).text := by
    rw [Argument.text, String.ext_iff]
    simp
  rw [ht]
  exact Argument.of_text (by decide : 'r' ≠ '-')

theorem scan_spelled (stops : Bool) (hs : s ∈ allowed) (hn : s.isNotice = false)
    (hp : Spells s.long value piece) : ∃ isPending, ∀ g args,
      scan allowed stops g (piece ++ args) =
        (g.put? s value isPending).bind fun g => scan allowed stops g args := by
  have hfind := find?_long hs
  have hflag := Switch.isFlag_iff hn
  -- The name stands alone, so that the cases can tell `root` and the flag from the other names.
  generalize he : s.long = name at hp hfind hflag
  cases hp with
  | apart hf hw =>
    have ho : Argument.of ("--" ++ name) = .long name none := he ▸ of_long s none
    refine ⟨true, fun g args => ?_⟩
    rw [List.cons_append, scan, ho]
    simp [hfind, hn, hflag, hf, isWord_iff.1 hw]
  | joined hf =>
    have ho : Argument.of ("--" ++ name ++ "=" ++ value) = .long name (some value) :=
      he ▸ of_long s (some value)
    refine ⟨false, fun g args => ?_⟩
    rw [List.singleton_append, scan, ho]
    simp [hfind, hflag, hf]
  | letter hw =>
    obtain rfl : s = .root := Switch.long_inj.1 he
    have ho : Argument.of "-r" = .short 'r' [] := of_letter ""
    refine ⟨true, fun g args => ?_⟩
    rw [List.cons_append, scan, ho]
    simp [find?_letter hs, hn, isWord_iff.1 hw]
  | letterJoined hne hh =>
    obtain rfl : s = .root := Switch.long_inj.1 he
    obtain ⟨c, cs, hc⟩ := List.exists_cons_of_ne_nil (mt String.toList_eq_nil_iff.1 hne)
    have hv : String.ofList (dropEquals (c :: cs)) = value := by
      rw [← String.ofList_toList (s := value), hc, dropEquals]
      intro _ he
      rw [hc, he] at hh
      exact hh rfl
    refine ⟨false, fun g args => ?_⟩
    rw [List.singleton_append, scan, of_letter, hc]
    simp [find?_letter hs, hn, hv]
  | letterEquals =>
    obtain rfl : s = .root := Switch.long_inj.1 he
    have ho : Argument.of ("-r=" ++ value) = .short 'r' ('=' :: value.toList) := by
      have ha := of_letter ("=" ++ value)
      rw [← String.append_assoc] at ha
      simpa using ha
    refine ⟨false, fun g args => ?_⟩
    rw [List.singleton_append, scan, ho]
    simp [find?_letter hs, hn, dropEquals]
  | flag =>
    obtain rfl : s = .unnamedRequester := Switch.long_inj.1 he
    have ho : Argument.of "--from-unnamed" = .long "from-unnamed" none :=
      of_long .unnamedRequester none
    refine ⟨false, fun g args => ?_⟩
    rw [List.singleton_append, scan, ho]
    simp [hfind, hn, hflag]

theorem spells_letter (c : Char) (cs : List Char) :
    Spells "root" (.ofList (dropEquals (c :: cs))) [(Argument.short 'r' (c :: cs)).text] := by
  by_cases hc : c = '='
  · subst hc
    have ht : (Argument.short 'r' ('=' :: cs)).text = "-r=" ++ .ofList cs := by
      rw [Argument.text, String.ext_iff]
      simp
    rw [ht]
    exact .letterEquals
  · have hd : dropEquals (c :: cs) = c :: cs := by
      rw [dropEquals]
      rintro _ ⟨⟩
      exact hc rfl
    have ht : (Argument.short 'r' (c :: cs)).text = "-r" ++ .ofList (c :: cs) := by
      rw [Argument.text, String.ext_iff]
      simp
    rw [hd, ht]
    exact .letterJoined (by simp) (by simpa using hc)

/-- What reading does with the first of its arguments, unless it comes to a fault or a notice. -/
inductive Scan.Begins (allowed : List Switch) (stops : Bool) (g g' : Given) (left : List String) :
    List String → Prop
  | stop {w : String} {args : List String} : stops = true → IsWord w → g' = g →
      left = w :: args → Begins allowed stops g g' left (w :: args)
  | word {w : String} {args : List String} {g₁ : Given} : stops = false → IsWord w →
      g.addWord? w = some g₁ → scan allowed stops g₁ args = some (.given g' left) →
      Begins allowed stops g g' left (w :: args)
  | words {ws : List String} : stops = false → ws.foldlM Given.addWord? g = some g' →
      Begins allowed stops g g' left ("--" :: ws)
  | option {s : Switch} {value : String} {piece args : List String} {isPending : Bool}
      {g₁ : Given} : s ∈ allowed → s.isNotice = false → Spells s.long value piece →
      g.put? s value isPending = some g₁ → scan allowed stops g₁ args = some (.given g' left) →
      Begins allowed stops g g' left (piece ++ args)

namespace Scan

theorem begins_of_long {value : Option String} (ha : Argument.of w = .long name value)
    (h : scan allowed stops g (w :: args) = some (.given g' left)) :
    Begins allowed stops g g' left (w :: args) := by
  have hw := (Argument.text_of w).1
  rw [ha] at hw
  rw [scan, ha] at h
  dsimp only at h
  cases hf : allowed.find? (·.long = name) with
  | none =>
    rw [hf] at h
    cases h
  | some s =>
    rw [hf] at h
    have hs := List.mem_of_find?_eq_some hf
    obtain rfl : s.long = name := by simpa using List.find?_some hf
    cases value with
    | some v =>
      obtain rfl : "--" ++ s.long ++ "=" ++ v = w := hw
      dsimp only at h
      split_ifs at h with hflag
      obtain ⟨g₁, hg, h⟩ := Option.bind_eq_some_iff.1 h
      have hn := Switch.isNotice_of_isFlag (by simpa using hflag)
      rw [Switch.isFlag_iff hn] at hflag
      exact .option hs hn (.joined hflag) hg h
    | none =>
      obtain rfl : "--" ++ s.long = w := hw
      dsimp only at h
      split_ifs at h with hn hflag
      · obtain ⟨_, -, h⟩ := Option.map_eq_some_iff.1 h
        cases h
      · have hn : s.isNotice = false := by simpa using hn
        obtain rfl : s = .unnamedRequester := Switch.long_inj.1 ((Switch.isFlag_iff hn).1 hflag)
        obtain ⟨g₁, hg, h⟩ := Option.bind_eq_some_iff.1 h
        exact .option hs hn .flag hg h
      · have hn : s.isNotice = false := by simpa using hn
        rw [Switch.isFlag_iff hn] at hflag
        cases args with
        | nil => cases h
        | cons v args =>
          dsimp only at h
          split at h
          · next hv =>
            obtain ⟨rfl, hv⟩ := eq_of_word hv
            obtain ⟨g₁, hg, h⟩ := Option.bind_eq_some_iff.1 h
            exact .option hs hn (.apart hflag hv) hg h
          · cases h

theorem begins_of_short {c : Char} (ha : Argument.of w = .short c cs)
    (h : scan allowed stops g (w :: args) = some (.given g' left)) :
    Begins allowed stops g g' left (w :: args) := by
  have hw := (Argument.text_of w).1
  rw [ha] at hw
  rw [scan, ha] at h
  dsimp only at h
  cases hf : allowed.find? (·.letter? = some c) with
  | none =>
    rw [hf] at h
    cases h
  | some s =>
    rw [hf] at h
    have hs := List.mem_of_find?_eq_some hf
    have hl : s.letter? = some c := by simpa using List.find?_some hf
    dsimp only at h
    split_ifs at h with hn
    · obtain ⟨_, -, h⟩ := Option.map_eq_some_iff.1 h
      cases h
    have hn : s.isNotice = false := by simpa using hn
    obtain ⟨rfl, rfl⟩ := (Switch.letter?_eq_some_iff hn).1 hl
    cases cs with
    | nil =>
      obtain rfl : "-r" = w := hw
      cases args with
      | nil => cases h
      | cons v args =>
        dsimp only at h
        split at h
        · next hv =>
          obtain ⟨rfl, hv⟩ := eq_of_word hv
          obtain ⟨g₁, hg, h⟩ := Option.bind_eq_some_iff.1 h
          exact .option hs hn (.letter hv) hg h
        · cases h
    | cons d cs =>
      obtain ⟨g₁, hg, h⟩ := Option.bind_eq_some_iff.1 h
      have hp : Spells Switch.root.long (.ofList (dropEquals (d :: cs))) [w] := by
        rw [← hw]
        exact spells_letter d cs
      exact .option hs hn hp hg h

theorem begins (h : scan allowed stops g (w :: args) = some (.given g' left)) :
    Begins allowed stops g g' left (w :: args) := by
  obtain ⟨hw, hp⟩ := Argument.text_of w
  cases ha : Argument.of w with
  | separator =>
    rw [scan, ha] at h
    rw [ha] at hw
    obtain rfl : "--" = w := hw
    dsimp only at h
    split_ifs at h with hs
    obtain ⟨g₁, hg, h⟩ := Option.map_eq_some_iff.1 h
    cases h
    exact .words (by simpa using hs) hg
  | word v =>
    rw [scan, ha] at h
    rw [ha] at hw hp
    obtain rfl : v = w := hw
    dsimp only at h
    split_ifs at h with hs
    · cases h
      exact .stop hs hp rfl rfl
    · obtain ⟨g₁, hg, h⟩ := Option.bind_eq_some_iff.1 h
      exact .word (by simpa using hs) hp hg h
  | long name value => exact begins_of_long ha h
  | short c cs => exact begins_of_short ha h

end Scan

theorem Spells.length_pos (h : Spells name value piece) : 0 < piece.length := by
  cases h <;> exact Nat.succ_pos _

namespace Given

theorem exists_addWord? (hg : Consistent (named g.switches))
    (hw : (g.path?.toList ++ w :: ws).length ≤ 1) (hne : w ≠ "") :
    ∃ g', g.addWord? w = some g' ∧ g.Grows g' [] [w] := by
  have hp : g.path? = none := by
    rw [← Option.toList_eq_nil_iff]
    exact List.length_eq_zero_iff.1 (by simp at hw; omega)
  have ha : g.addWord? w = some { g with path? := some w } := addWord?_eq_some_iff.2 ⟨⟨hp, hne⟩, rfl⟩
  exact ⟨_, ha, grows_of_addWord? hg ha⟩

theorem exists_addWords? (hg : Consistent (named g.switches))
    (hw : (g.path?.toList ++ ws).length ≤ 1) (hne : "" ∉ ws) :
    ∃ g', ws.foldlM addWord? g = some g' ∧ g.Grows g' [] ws := by
  induction ws generalizing g with
  | nil => exact ⟨g, rfl, .refl hg⟩
  | cons w ws ih =>
    obtain ⟨g₁, h₁, hg₁⟩ := exists_addWord? hg hw fun h => hne (h ▸ List.mem_cons_self)
    obtain ⟨g', h', hg'⟩ := ih hg₁.sound
      (by rw [hg₁.words, List.append_assoc]; exact hw) (fun h => hne (List.mem_cons_of_mem _ h))
    refine ⟨g', ?_, hg₁.trans hg'⟩
    rw [List.foldlM_cons, h₁]
    exact h'

theorem grows_of_addWords? (hg : Consistent (named g.switches))
    (h : ws.foldlM addWord? g = some g') : g.Grows g' [] ws ∧ "" ∉ ws := by
  induction ws generalizing g with
  | nil =>
    obtain rfl := Option.some.inj h
    exact ⟨.refl hg, List.not_mem_nil⟩
  | cons w ws ih =>
    obtain ⟨g₁, h₁, h⟩ := Option.bind_eq_some_iff.1 h
    have hg₁ := grows_of_addWord? hg h₁
    obtain ⟨hg', hne⟩ := ih hg₁.sound h
    have hw := (addWord?_eq_some_iff.1 h₁).1.2
    refine ⟨hg₁.trans hg', ?_⟩
    simpa using ⟨hw, hne⟩

end Given

/-- An option that fits those before it is read. -/
theorem exists_scan_spelled (stops : Bool) (hn : name ∈ namesOf allowed) (hp : Spells name value piece)
    (hg : Consistent (named g.switches)) (hc : Consistent (named g.all ++ [(name, value)])) :
    ∃ g', g.Grows g' [(name, value)] [] ∧
      ∀ args, scan allowed stops g (piece ++ args) = scan allowed stops g' args := by
  obtain ⟨s, hs, hs', rfl⟩ := mem_namesOf.1 hn
  obtain ⟨isPending, hscan⟩ := scan_spelled stops hs hs' hp
  obtain ⟨g', h'⟩ := Given.exists_put? hg hc isPending
  refine ⟨g', Given.grows_of_put? hg h', fun args => ?_⟩
  rw [hscan, h', Option.bind_some]

/-- Options are read up to the first word. -/
theorem Options.scan (h : Options (namesOf allowed) os args) (hg : Consistent (named g.switches))
    (hc : Consistent (named g.all ++ os)) (hw : IsWord w) (left : List String) :
    ∃ g', scan allowed true g (args ++ w :: left) = some (.given g' (w :: left)) ∧
      g.Grows g' os [] := by
  induction h generalizing g with
  | nil =>
    refine ⟨g, ?_, .refl hg⟩
    rw [List.nil_append, CommandLine.scan, isWord_iff.1 hw]
    rfl
  | cons hn hp _ ih =>
    rw [List.append_cons] at hc
    obtain ⟨g₁, hg₁, hscan⟩ := exists_scan_spelled true hn hp hg hc.of_append
    obtain ⟨g', h', hg'⟩ := ih hg₁.sound (by rw [hg₁.options]; exact hc)
    refine ⟨g', ?_, hg₁.trans hg'⟩
    rw [List.append_assoc, hscan]
    exact h'

/-- Options and words are read to the end. There is one word at most. -/
theorem Operands.scan (h : Operands (namesOf allowed) os ws args)
    (hg : Consistent (named g.switches)) (hc : Consistent (named g.all ++ os))
    (hw : (g.path?.toList ++ ws).length ≤ 1) (hne : "" ∉ ws) :
    ∃ g', scan allowed false g args = some (.given g' []) ∧ g.Grows g' os ws := by
  induction h generalizing g with
  | nil => exact ⟨g, by rw [CommandLine.scan], .refl hg⟩
  | words ws =>
    obtain ⟨g', h', hg'⟩ := Given.exists_addWords? hg hw hne
    have ho : Argument.of "--" = .separator := rfl
    refine ⟨g', ?_, hg'⟩
    rw [CommandLine.scan, ho]
    simp [h']
  | word hword _ ih =>
    obtain ⟨g₁, h₁, hg₁⟩ := Given.exists_addWord? hg hw fun h => hne (h ▸ List.mem_cons_self)
    obtain ⟨g', h', hg'⟩ := ih hg₁.sound (by rw [hg₁.options]; simpa using hc)
      (by rw [hg₁.words, List.append_assoc]; exact hw) (fun h => hne (List.mem_cons_of_mem _ h))
    refine ⟨g', ?_, hg₁.trans hg'⟩
    rw [CommandLine.scan, isWord_iff.1 hword]
    simpa [h₁] using h'
  | option hn hp _ ih =>
    rw [List.append_cons] at hc
    obtain ⟨g₁, hg₁, hscan⟩ := exists_scan_spelled false hn hp hg hc.of_append
    obtain ⟨g', h', hg'⟩ := ih hg₁.sound (by rw [hg₁.options]; exact hc)
      (by rw [hg₁.words, List.append_nil]; exact hw) hne
    refine ⟨g', ?_, hg₁.trans hg'⟩
    rw [hscan]
    exact h'

/-- What stands in front of the first word is options. -/
theorem exists_options (hg : Consistent (named g.switches))
    (h : scan allowed true g args = some (.given g' (w :: left))) :
    ∃ os front, args = front ++ w :: left ∧ Options (namesOf allowed) os front ∧ IsWord w ∧
      g.Grows g' os [] := by
  -- An option takes one argument or two, so the induction is on how many are left.
  induction hl : args.length using Nat.strong_induction_on generalizing g args with
  | _ n ih =>
    cases args with
    | nil =>
      rw [scan] at h
      cases h
    | cons arg args =>
      have hb := Scan.begins h
      generalize he : arg :: args = all at hb hl
      cases hb with
      | stop _ hw hg' hleft =>
        subst hg'
        cases hleft
        exact ⟨[], [], rfl, .nil, hw, .refl hg⟩
      | word hs => cases hs
      | words hs => cases hs
      | option hs hn hp hput hscan =>
        have hg₁ := Given.grows_of_put? hg hput
        have hlt := hp.length_pos
        obtain ⟨os, front, rfl, ho, hw, hg'⟩ :=
          ih _ (by rw [← hl, List.length_append]; omega) hg₁.sound hscan rfl
        exact ⟨_, _, (List.append_assoc ..).symm, .cons (mem_namesOf.2 ⟨_, hs, hn, rfl⟩) hp ho, hw,
          hg₁.trans hg'⟩

/-- All that is read is options and words. -/
theorem exists_operands (hg : Consistent (named g.switches))
    (h : scan allowed false g args = some (.given g' left)) :
    ∃ os ws, Operands (namesOf allowed) os ws args ∧ g.Grows g' os ws ∧ "" ∉ ws := by
  induction hl : args.length using Nat.strong_induction_on generalizing g args with
  | _ n ih =>
    cases args with
    | nil =>
      rw [scan] at h
      cases h
      exact ⟨[], [], .nil, .refl hg, List.not_mem_nil⟩
    | cons arg args =>
      have hb := Scan.begins h
      generalize arg :: args = all at hb hl
      cases hb with
      | stop hs => cases hs
      | word _ hw hadd hscan =>
        have hg₁ := Given.grows_of_addWord? hg hadd
        have hne := (Given.addWord?_eq_some_iff.1 hadd).1.2
        obtain ⟨os, ws, ho, hg', hws⟩ := ih _ (by rw [← hl, List.length_cons]; omega) hg₁.sound
          hscan rfl
        refine ⟨os, _, .word hw ho, hg₁.trans hg', ?_⟩
        simpa using ⟨hne, hws⟩
      | words _ hadd =>
        obtain ⟨hg', hne⟩ := Given.grows_of_addWords? hg hadd
        exact ⟨[], _, .words _, hg', hne⟩
      | option hs hn hp hput hscan =>
        have hg₁ := Given.grows_of_put? hg hput
        have hlt := hp.length_pos
        obtain ⟨os, ws, ho, hg', hws⟩ := ih _ (by rw [← hl, List.length_append]; omega) hg₁.sound
          hscan rfl
        exact ⟨_, ws, .option (mem_namesOf.2 ⟨_, hs, hn, rfl⟩) hp ho, hg₁.trans hg', hws⟩

end ModuleGraph.CommandLine
