import PixelFlow.CommandLine.Options
import PixelFlow.Proofs.Method
import Mathlib.Data.List.Induction

/-!
# The language of options

An argument list is read in groups from left to right. A number behind `--sepia` always belongs to
it, so the groups are fixed by the arguments, and the first argument that no group can begin with
or that does not fit into its group is the fault.

* `PipelineOptions.Group`, `PipelineOptions.Splits`: the groups at the beginning of an argument
  list, and what follows them.
* `PipelineOptions.Offends`: what is wrong with arguments that no group begins with.
* `PipelineOptions.SetBy`: the options of groups; the last group of an option counts.
* `PipelineOptions.exists_splits`: the groups go on up to the end or to a fault.
* `PipelineOptions.Loops`: the same reader as a loop over the places of the arguments.
* **`PipelineOptions.ofArguments_splits`**: what is read, as what, and which fault is told.
-/

namespace PixelFlow.PipelineOptions

/-! ## Groups -/

/-- An option with what belongs to it. -/
inductive Group
  | blur (method : String)
  | sigma (value : String)
  | brightness (amount : String)
  | sepia (intensity : Option String)
deriving DecidableEq

namespace Group

def arguments : Group → List String
  | blur s => ["--blur", s]
  | sigma s => ["--sigma", s]
  | brightness s => ["--brightness", s]
  | sepia s => "--sepia" :: s.toList

/-- The name of the method, in lower case. -/
def method? : Group → Option String
  | blur s => some (Text.asciiLowercase s)
  | _ => Option.none

def sigma? : Group → Option Number
  | sigma s => (Number.ofText s).toOption
  | _ => Option.none

def brightness? : Group → Option Number
  | brightness s => (Number.ofText s).toOption
  | _ => Option.none

/-- The intensity; all of it if none is given. -/
def sepia? : Group → Option Number
  | sepia (some s) => (Number.ofText s).toOption
  | sepia Option.none => some 1
  | _ => Option.none

/-- **Whether a group can be read in front of other arguments.** A method is named in any case, and
`--sepia` stands alone only if no number follows. -/
inductive Reads : Group → List String → Prop
  | blur {s : String} {rest : List String}
    (h : Text.asciiLowercase s ∈ BlurMethod.all.map (·.name)) : Reads (.blur s) rest
  | sigma {s : String} {x : Number} {rest : List String} (h : Number.ofText s = .ok x) :
    Reads (.sigma s) rest
  | brightness {s : String} {x : Number} {rest : List String} (h : Number.ofText s = .ok x) :
    Reads (.brightness s) rest
  | sepia {s : String} {x : Number} {rest : List String} (h : Number.ofText s = .ok x) :
    Reads (.sepia (some s)) rest
  | bare {rest : List String} (h : ∀ s ∈ rest.head?, ∀ x, Number.ofText s ≠ .ok x) :
    Reads (.sepia Option.none) rest

end Group

/-- **The groups at the beginning of an argument list, and the arguments after them.** -/
inductive Splits : List String → List Group → List String → Prop
  | nil (rest : List String) : Splits rest [] rest
  | cons {g : Group} {gs : List Group} {arguments rest : List String} (hg : g.Reads arguments)
    (h : Splits arguments gs rest) : Splits (g.arguments ++ arguments) (g :: gs) rest

/-- **What is wrong with the first of some arguments**, or with the one after it. -/
inductive Offends : List String → OptionFault → Prop
  | unknown {s : String} {rest : List String}
    (h : s ∉ ["--blur", "--sigma", "--brightness", "--sepia"]) : Offends (s :: rest) (.unknown s)
  | missingMethod : Offends ["--blur"] .missingMethod
  | missingSigma : Offends ["--sigma"] .missingSigma
  | missingAmount : Offends ["--brightness"] .missingAmount
  | method {s : String} {rest : List String}
    (h : Text.asciiLowercase s ∉ BlurMethod.all.map (·.name)) :
    Offends ("--blur" :: s :: rest) (.method (Text.asciiLowercase s))
  | sigma {s : String} {rest : List String} {e : NumberFault} (h : Number.ofText s = .error e) :
    Offends ("--sigma" :: s :: rest) (.sigma s e)
  | brightness {s : String} {rest : List String} {e : NumberFault}
    (h : Number.ofText s = .error e) : Offends ("--brightness" :: s :: rest) (.brightness s e)

/-- **The options that groups set**: each has the value of its last group, if there is one. -/
structure SetBy (o : PipelineOptions) (gs : List Group) : Prop where
  blur : o.blur.map (·.name) = (gs.filterMap Group.method?).getLast?
  sigma : o.sigma = (gs.filterMap Group.sigma?).getLast?
  brightness : o.brightness = (gs.filterMap Group.brightness?).getLast?
  sepia : o.sepia = (gs.filterMap Group.sepia?).getLast?

variable {o : PipelineOptions} {g : Group} {gs : List Group} {arguments rest : List String}
  {fault : OptionFault}

/-- No argument is left out, and none belongs to two groups. -/
theorem Splits.eq (h : Splits arguments gs rest) :
    arguments = gs.flatMap (·.arguments) ++ rest := by
  induction h with
  | nil => rfl
  | cons _ _ ih => rw [List.flatMap_cons, List.append_assoc, ← ih]

theorem Splits.reads (h : Splits arguments gs rest) : ∀ g ∈ gs, ∃ later, g.Reads later := by
  induction h with
  | nil => exact fun g hg => (List.not_mem_nil hg).elim
  | cons hg _ ih => exact List.forall_mem_cons.2 ⟨⟨_, hg⟩, ih⟩

/-! ## Reading a group -/

theorem ofName_eq_ok {s : String} (h : Text.asciiLowercase s ∈ BlurMethod.all.map (·.name)) :
    ∃ m, BlurMethod.ofName s = .ok m ∧ m.name = Text.asciiLowercase s := by
  obtain ⟨m, hm, e⟩ := List.mem_map.1 h
  exact ⟨m, (Builtin.blurNames.read s m).2 ⟨hm, e⟩, e⟩

theorem ofName_eq_error {s : String} (h : Text.asciiLowercase s ∉ BlurMethod.all.map (·.name)) :
    BlurMethod.ofName s = .error (Text.asciiLowercase s) := by
  rw [BlurMethod.ofName]
  generalize Text.asciiLowercase s = t at h
  split <;> simp_all [BlurMethod.all, BlurMethod.name]

/-- The method that a group sets. -/
def Group.blur? : Group → Option BlurMethod
  | blur s => (BlurMethod.ofName s).toOption
  | _ => Option.none

theorem Group.Reads.method? (h : g.Reads rest) : g.blur?.map (·.name) = g.method? := by
  cases h with
  | blur h =>
    obtain ⟨m, hm, e⟩ := ofName_eq_ok h
    rw [Group.blur?, hm, Group.method?, ← e]
    rfl
  | _ => rfl

/-- Set the option of a group. -/
def put (o : PipelineOptions) (g : Group) : PipelineOptions where
  blur := g.blur?.or o.blur
  sigma := g.sigma?.or o.sigma
  brightness := g.brightness?.or o.brightness
  sepia := g.sepia?.or o.sepia

theorem put_blur {s : String} {m : BlurMethod} (h : BlurMethod.ofName s = .ok m) :
    o.put (.blur s) = { o with blur := some m } := by
  simp [put, Group.blur?, Group.sigma?, Group.brightness?, Group.sepia?, h, Except.toOption]

theorem put_sigma {s : String} {x : Number} (h : Number.ofText s = .ok x) :
    o.put (.sigma s) = { o with sigma := some x } := by
  simp [put, Group.blur?, Group.sigma?, Group.brightness?, Group.sepia?, h, Except.toOption]

theorem put_brightness {s : String} {x : Number} (h : Number.ofText s = .ok x) :
    o.put (.brightness s) = { o with brightness := some x } := by
  simp [put, Group.blur?, Group.sigma?, Group.brightness?, Group.sepia?, h, Except.toOption]

theorem put_sepia {s : String} {x : Number} (h : Number.ofText s = .ok x) :
    o.put (.sepia (some s)) = { o with sepia := some x } := by
  simp [put, Group.blur?, Group.sigma?, Group.brightness?, Group.sepia?, h, Except.toOption]

theorem put_bare : o.put (.sepia Option.none) = { o with sepia := some 1 } := by
  simp [put, Group.blur?, Group.sigma?, Group.brightness?, Group.sepia?]

/-- What follows a bare `--sepia` is no number. -/
theorem toOption_of_bare (h : ∀ s ∈ rest.head?, ∀ x, Number.ofText s ≠ .ok x) :
    rest.head?.bind (fun s => (Number.ofText s).toOption) = Option.none := by
  refine Option.bind_eq_none_iff.2 fun s hs => ?_
  cases hx : Number.ofText s with
  | ok x => exact (h s hs x hx).elim
  | error e => rfl

/-- **A group sets its option**, and reading goes on behind it. -/
theorem read_group (hg : g.Reads rest) : o.read (g.arguments ++ rest) = (o.put g).read rest := by
  cases hg with
  | blur h =>
    obtain ⟨m, hm, -⟩ := ofName_eq_ok h
    simp [Group.arguments, read, put_blur hm, hm]
  | sigma h => simp [Group.arguments, read, put_sigma h, h]
  | brightness h => simp [Group.arguments, read, put_brightness h, h]
  | sepia h => simp [Group.arguments, read, put_sepia h, h]
  | bare h =>
    cases rest with
    | nil => rfl
    | cons s rest =>
      cases hs : Number.ofText s with
      | ok x => exact (h s rfl x hs).elim
      | error e => simp [Group.arguments, read, put_bare, hs]

/-- **Groups set their options one after the other.** -/
theorem read_splits (h : Splits arguments gs rest) :
    o.read arguments = (gs.foldl put o).read rest := by
  induction h generalizing o with
  | nil => rfl
  | cons hg _ ih => rw [read_group hg, ih, List.foldl_cons]

/-- Arguments that no group begins with are refused. -/
theorem read_of_offends (h : Offends rest fault) : o.read rest = .error fault := by
  cases h with
  | @unknown s rest h =>
    simp only [List.mem_cons, List.not_mem_nil, or_false, not_or] at h
    obtain ⟨h₁, h₂, h₃, h₄⟩ := h
    cases rest <;> simp [read, h₁, h₂, h₃, h₄]
  | missingMethod | missingSigma | missingAmount => rfl
  | method h => simp [read, ofName_eq_error h]
  | sigma h | brightness h => simp [read, h]

/-! ## The value of the last group -/

/-- The last value counts. -/
theorem foldl_or {α : Type} (field : PipelineOptions → Option α) (value : Group → Option α)
    (h : ∀ o g, field (put o g) = (value g).or (field o)) (o : PipelineOptions) (gs : List Group) :
    field (gs.foldl put o) = ((gs.filterMap value).getLast?).or (field o) := by
  induction gs using List.reverseRecOn with
  | nil => rfl
  | append_singleton gs g ih =>
    rw [List.foldl_concat, h, ih, List.filterMap_append]
    cases hv : value g with
    | none => simp [hv]
    | some x => simp [hv]

theorem Splits.setBy (h : Splits arguments gs rest) : SetBy (gs.foldl put none) gs where
  blur := by
    have methods : gs.filterMap Group.method? = (gs.filterMap Group.blur?).map (·.name) := by
      rw [List.map_filterMap]
      refine List.filterMap_congr fun g hg => ?_
      obtain ⟨later, hr⟩ := h.reads g hg
      exact hr.method?.symm
    rw [foldl_or (·.blur) Group.blur? fun _ _ => rfl, methods, List.getLast?_map]
    exact congrArg _ (Option.or_none)
  sigma := (foldl_or (·.sigma) Group.sigma? (fun _ _ => rfl) none gs).trans Option.or_none
  brightness :=
    (foldl_or (·.brightness) Group.brightness? (fun _ _ => rfl) none gs).trans Option.or_none
  sepia := (foldl_or (·.sepia) Group.sepia? (fun _ _ => rfl) none gs).trans Option.or_none

/-- Groups fix the options. -/
theorem SetBy.unique {o' : PipelineOptions} (h : SetBy o gs) (h' : SetBy o' gs) : o = o' := by
  have blur : o.blur = o'.blur := by
    have := h.blur.trans h'.blur.symm
    refine Option.map_injective (fun m n e => ?_) this
    cases m <;> cases n <;> first | rfl | exact absurd e (by decide)
  cases o
  cases o'
  obtain ⟨-, s, b, p⟩ := h
  obtain ⟨-, s', b', p'⟩ := h'
  simp_all

/-! ## The groups of an argument list -/

/-- Either a group begins with an argument, or it offends. -/
theorem offends_or_reads (s : String) (rest : List String) :
    (∃ fault, Offends (s :: rest) fault) ∨
      ∃ g later, s :: rest = g.arguments ++ later ∧ Group.Reads g later := by
  by_cases known : s ∈ ["--blur", "--sigma", "--brightness", "--sepia"]
  swap
  · exact .inl ⟨_, .unknown known⟩
  simp only [List.mem_cons, List.not_mem_nil, or_false] at known
  rcases known with rfl | rfl | rfl | rfl
  · cases rest with
    | nil => exact .inl ⟨_, .missingMethod⟩
    | cons t rest =>
      by_cases h : Text.asciiLowercase t ∈ BlurMethod.all.map (·.name)
      · exact .inr ⟨.blur t, rest, rfl, .blur h⟩
      · exact .inl ⟨_, .method h⟩
  · cases rest with
    | nil => exact .inl ⟨_, .missingSigma⟩
    | cons t rest =>
      cases h : Number.ofText t with
      | ok x => exact .inr ⟨.sigma t, rest, rfl, .sigma h⟩
      | error e => exact .inl ⟨_, .sigma h⟩
  · cases rest with
    | nil => exact .inl ⟨_, .missingAmount⟩
    | cons t rest =>
      cases h : Number.ofText t with
      | ok x => exact .inr ⟨.brightness t, rest, rfl, .brightness h⟩
      | error e => exact .inl ⟨_, .brightness h⟩
  · by_cases number : ∃ t ∈ rest.head?, ∃ x, Number.ofText t = .ok x
    · obtain ⟨t, ht, x, hx⟩ := number
      obtain ⟨later, rfl⟩ := List.head?_eq_some_iff.1 ht
      exact .inr ⟨.sepia (some t), later, rfl, .sepia hx⟩
    · exact .inr ⟨.sepia Option.none, rest, rfl,
        .bare fun t ht x hx => number ⟨t, ht, x, hx⟩⟩

/-- **The groups of an argument list go on up to its end or to a fault.** -/
theorem exists_splits (arguments : List String) :
    ∃ gs rest, Splits arguments gs rest ∧ (rest = [] ∨ ∃ fault, Offends rest fault) := by
  induction h : arguments.length using Nat.strongRecOn generalizing arguments with
  | ind n ih =>
    cases arguments with
    | nil => exact ⟨[], [], .nil [], .inl rfl⟩
    | cons s rest =>
      rcases offends_or_reads s rest with fault | ⟨g, later, e, hg⟩
      · exact ⟨[], s :: rest, .nil _, .inr fault⟩
      · have shorter : later.length < n := by
          rw [← h, e, List.length_append]
          cases g <;> simp only [Group.arguments, List.length_cons] <;> omega
        obtain ⟨gs, rest', hs, ends⟩ := ih _ shorter later rfl
        exact ⟨g :: gs, rest', e ▸ .cons hg hs, ends⟩

/-- The first group is fixed by the arguments. -/
theorem Group.Reads.unique {g' : Group} {later later' : List String} (h : g.Reads later)
    (h' : g'.Reads later') (e : g.arguments ++ later = g'.arguments ++ later') :
    g = g' ∧ later = later' := by
  cases h <;> cases h' <;> simp only [Group.arguments, Option.toList, List.cons_append,
    List.nil_append, List.cons.injEq] at e
  case blur.blur | sigma.sigma | brightness.brightness | sepia.sepia | bare.bare => simp [e]
  case sepia.bare hx h' => exact (h' _ (e.2 ▸ rfl) _ hx).elim
  case bare.sepia h _ _ hx => exact (h _ (e.2 ▸ rfl) _ hx).elim
  all_goals exact absurd e.1 (by decide)

theorem Splits.of_cons (h : Splits arguments (g :: gs) rest) :
    ∃ later, arguments = g.arguments ++ later ∧ g.Reads later ∧ Splits later gs rest := by
  cases h with
  | cons hg h => exact ⟨_, rfl, hg, h⟩

theorem Group.arguments_ne_nil (g : Group) : g.arguments ≠ [] := by
  cases g <;> exact List.cons_ne_nil _ _

/-- **The groups are fixed by the arguments.** -/
theorem Splits.unique {gs' : List Group} (h : Splits arguments gs [])
    (h' : Splits arguments gs' []) : gs = gs' := by
  induction gs generalizing arguments gs' with
  | nil =>
    obtain rfl : arguments = [] := h.eq
    cases gs' with
    | nil => rfl
    | cons g gs' =>
      obtain ⟨later, e, -⟩ := h'.of_cons
      exact (g.arguments_ne_nil (List.append_eq_nil_iff.1 e.symm).1).elim
  | cons g gs ih =>
    obtain ⟨later, rfl, hg, h⟩ := h.of_cons
    cases gs' with
    | nil => exact (g.arguments_ne_nil (List.append_eq_nil_iff.1 h'.eq).1).elim
    | cons g' gs' =>
      obtain ⟨later', e, hg', h'⟩ := h'.of_cons
      obtain ⟨rfl, rfl⟩ := hg.unique hg' e
      rw [ih h h']

/-! ## The reader as a loop -/

/-- One turn of the loop: the option at a place is read, and the place of the next one is found. -/
def turn (arguments : List String) (option : String) (i : Nat) (o : PipelineOptions) :
    Except OptionFault (PipelineOptions × Nat) :=
  if option = "--blur" then
    match arguments[i + 1]? with
    | Option.none => .error .missingMethod
    | some s =>
      match BlurMethod.ofName s with
      | .ok m => .ok ({ o with blur := some m }, i + 2)
      | .error other => .error (.method other)
  else if option = "--sigma" then
    match arguments[i + 1]? with
    | Option.none => .error .missingSigma
    | some s =>
      match Number.ofText s with
      | .ok x => .ok ({ o with sigma := some x }, i + 2)
      | .error e => .error (.sigma s e)
  else if option = "--brightness" then
    match arguments[i + 1]? with
    | Option.none => .error .missingAmount
    | some s =>
      match Number.ofText s with
      | .ok x => .ok ({ o with brightness := some x }, i + 2)
      | .error e => .error (.brightness s e)
  else if option = "--sepia" then
    match arguments[i + 1]?.bind fun s => (Number.ofText s).toOption with
    | some x => .ok ({ o with sepia := some x }, i + 2)
    | Option.none => .ok ({ o with sepia := some 1 }, i + 1)
  else .error (.unknown option)

/-- **The loop over the places of the arguments**, from a place on, without any bound on the number
of its turns. -/
inductive Loops (arguments : List String) :
    Nat → PipelineOptions → Except OptionFault PipelineOptions → Prop
  | done {i : Nat} {o : PipelineOptions} (h : arguments.length ≤ i) : Loops arguments i o (.ok o)
  | stops {i : Nat} {o : PipelineOptions} {option : String} {fault : OptionFault}
    (h : arguments[i]? = some option) (ht : turn arguments option i o = .error fault) :
    Loops arguments i o (.error fault)
  | goes {i j : Nat} {o o' : PipelineOptions} {option : String}
    {r : Except OptionFault PipelineOptions} (h : arguments[i]? = some option)
    (ht : turn arguments option i o = .ok (o', j)) (hl : Loops arguments j o' r) :
    Loops arguments i o r

/-- The loop ends in one way at most. -/
theorem Loops.unique {i : Nat} {r r' : Except OptionFault PipelineOptions}
    (h : Loops arguments i o r) (h' : Loops arguments i o r') : r = r' := by
  induction h generalizing r' with
  | done h =>
    cases h' with
    | done => rfl
    | stops h' | goes h' => exact absurd h (Nat.not_le.2 (List.getElem?_eq_some_iff.1 h').1)
  | stops h ht =>
    cases h' with
    | done h' => exact absurd h' (Nat.not_le.2 (List.getElem?_eq_some_iff.1 h).1)
    | stops h' ht' =>
      obtain rfl := Option.some.inj (h.symm.trans h')
      exact ht.symm.trans ht' |> Except.error.inj |> congrArg _
    | goes h' ht' =>
      obtain rfl := Option.some.inj (h.symm.trans h')
      cases ht.symm.trans ht'
  | goes h ht _ ih =>
    cases h' with
    | done h' => exact absurd h' (Nat.not_le.2 (List.getElem?_eq_some_iff.1 h).1)
    | stops h' ht' =>
      obtain rfl := Option.some.inj (h.symm.trans h')
      cases ht.symm.trans ht'
    | goes h' ht' hl' =>
      obtain rfl := Option.some.inj (h.symm.trans h')
      obtain ⟨rfl, rfl⟩ := Prod.mk.inj (Except.ok.inj (ht.symm.trans ht'))
      exact ih hl'

/-- A group takes one turn, after which it lies behind. -/
theorem turn_group (before : List String) (hg : g.Reads rest) (o : PipelineOptions) :
    ∃ option, (before ++ (g.arguments ++ rest))[before.length]? = some option ∧
      turn (before ++ (g.arguments ++ rest)) option before.length o =
        .ok (o.put g, (before ++ g.arguments).length) := by
  cases hg with
  | blur h =>
    obtain ⟨m, hm, -⟩ := ofName_eq_ok h
    exact ⟨"--blur", by simp [Group.arguments], by simp [Group.arguments, turn, put_blur hm, hm]⟩
  | sigma h =>
    exact ⟨"--sigma", by simp [Group.arguments], by simp [Group.arguments, turn, put_sigma h, h]⟩
  | brightness h =>
    exact ⟨"--brightness", by simp [Group.arguments],
      by simp [Group.arguments, turn, put_brightness h, h]⟩
  | sepia h =>
    exact ⟨"--sepia", by simp [Group.arguments],
      by simp [Group.arguments, turn, put_sepia h, h, Except.toOption]⟩
  | bare h =>
    have next : (before ++ "--sepia" :: rest)[before.length + 1]? = rest.head? := by
      cases rest <;> simp
    exact ⟨"--sepia", by simp [Group.arguments],
      by simp [Group.arguments, turn, put_bare, next, toOption_of_bare h]⟩

/-- An offending argument ends the loop. -/
theorem turn_offends (before : List String) (h : Offends rest fault) (o : PipelineOptions) :
    ∃ option, (before ++ rest)[before.length]? = some option ∧
      turn (before ++ rest) option before.length o = .error fault := by
  cases h with
  | @unknown s rest h =>
    simp only [List.mem_cons, List.not_mem_nil, or_false, not_or] at h
    obtain ⟨h₁, h₂, h₃, h₄⟩ := h
    exact ⟨s, by simp, by simp [turn, h₁, h₂, h₃, h₄]⟩
  | missingMethod => exact ⟨"--blur", by simp, by simp [turn]⟩
  | missingSigma => exact ⟨"--sigma", by simp, by simp [turn]⟩
  | missingAmount => exact ⟨"--brightness", by simp, by simp [turn]⟩
  | method h => exact ⟨"--blur", by simp, by simp [turn, ofName_eq_error h]⟩
  | sigma h => exact ⟨"--sigma", by simp, by simp [turn, h]⟩
  | brightness h => exact ⟨"--brightness", by simp, by simp [turn, h]⟩

/-- **The loop reads what is left of the arguments.** -/
theorem loops_read (before : List String) (o : PipelineOptions) (rest : List String) :
    Loops (before ++ rest) before.length o (o.read rest) := by
  induction h : rest.length using Nat.strongRecOn generalizing before o rest with
  | ind n ih =>
    cases rest with
    | nil => exact .done (by simp)
    | cons s tail =>
      rcases offends_or_reads s tail with ⟨fault, hf⟩ | ⟨g, later, e, hg⟩
      · obtain ⟨option, place, stops⟩ := turn_offends before hf o
        rw [read_of_offends hf]
        exact .stops place stops
      · obtain ⟨option, place, goes⟩ := turn_group before hg o
        have shorter : later.length < n := by
          rw [← h, e, List.length_append]
          exact Nat.lt_add_of_pos_left (List.length_pos_iff.2 g.arguments_ne_nil)
        rw [e, read_group hg]
        refine .goes place goes ?_
        rw [← List.append_assoc]
        exact ih _ shorter (before ++ g.arguments) (o.put g) later rfl

/-- **Arguments are read as options exactly if they are groups**, each of them in one way, without
a rest; each option has the value of its last group, and those without a group are not set. Else
the fault is that of the first argument with which no group begins or which does not fit into its
group. A loop over the places of the arguments ends, whatever they are, and reads the same. -/
theorem ofArguments_splits (arguments : List String) :
    (∀ r, Loops arguments 0 none r ↔ r = ofArguments arguments) ∧
    (∀ o, ofArguments arguments = .ok o ↔ ∃! gs, Splits arguments gs [] ∧
      arguments = gs.flatMap (·.arguments) ∧ SetBy o gs) ∧
    (∀ fault, ofArguments arguments = .error fault ↔ ∃ gs rest, Splits arguments gs rest ∧
      arguments = gs.flatMap (·.arguments) ++ rest ∧ Offends rest fault) := by
  have loop : Loops arguments 0 none (ofArguments arguments) := loops_read [] none arguments
  obtain ⟨gs, rest, h, ends⟩ := exists_splits arguments
  have result : ofArguments arguments = (gs.foldl put none).read rest := read_splits h
  refine ⟨fun r => ⟨fun hr => hr.unique loop, fun hr => hr ▸ loop⟩, fun o => ⟨fun ho => ?_, ?_⟩,
    fun fault => ⟨fun hf => ?_, ?_⟩⟩
  · rcases ends with rfl | ⟨fault, hf⟩
    · obtain rfl : gs.foldl put none = o := Except.ok.inj (result.symm.trans ho)
      exact ⟨gs, ⟨h, h.eq.trans (List.append_nil _), h.setBy⟩, fun gs' h' => h'.1.unique h⟩
    · rw [result, read_of_offends hf] at ho
      cases ho
  · rintro ⟨gs', ⟨h', -, set⟩, -⟩
    rw [show ofArguments arguments = (gs'.foldl put none).read [] from read_splits h',
      set.unique h'.setBy]
    rfl
  · rcases ends with rfl | ⟨fault', hf'⟩
    · rw [result] at hf
      cases hf
    · rw [result, read_of_offends hf'] at hf
      obtain rfl := Except.error.inj hf
      exact ⟨gs, rest, h, h.eq, hf'⟩
  · rintro ⟨gs', rest', h', -, hf'⟩
    rw [show ofArguments arguments = (gs'.foldl put none).read rest' from read_splits h',
      read_of_offends hf']

end PixelFlow.PipelineOptions
