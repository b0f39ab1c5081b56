import PixelFlow.Json.Record
import PixelFlow.Proofs.Table

/-!
# Records and alternatives, read and written

What reads one part of an encoding reads the parts of a list, of an optional value, of a record and
of a tagged alternative.

* `Json.list?_ofList`, `Json.option?_ofOption`: lists and optional values.
* **`Json.record?_object`**: an object with the fields of a record is read as these fields.
* `Json.tagged?_ofTagged`, `Json.choice?_text`: alternatives by tag and by name.
* `Json.without_object`: a tree without the member of one name.
* **`Json.record?_insert`**: a member with a new name adds a field and leaves the others.
-/

namespace PixelFlow.Json

variable {α β : Type}

/-! ## Leaves -/

theorem number?_ofNumber {x : Number} (h : x.isFinite = true) : (ofNumber x).number? = some x := by
  rw [ofNumber, if_pos h]
  rfl

theorem below?_natCast {n bound : Nat} (h : n < bound) : (integer n).below? bound = some n := by
  rw [below?, if_pos ⟨Int.natCast_nonneg n, Int.ofNat_lt.2 h⟩, Int.toNat_natCast]

/-! ## Lists and optional values -/

theorem mapM_map {encode : α → β} {decode : β → Option α} {kept : α → α} {l : List α}
    (h : ∀ a ∈ l, decode (encode a) = some (kept a)) :
    (l.map encode).mapM decode = some (l.map kept) := by
  induction l with
  | nil => rfl
  | cons a l ih =>
    rw [List.map_cons, List.mapM_cons, h a List.mem_cons_self,
      ih fun b hb => h b (List.mem_cons_of_mem _ hb)]
    rfl

theorem list?_ofList {encode : α → Json} {decode : Json → Option α} {kept : α → α} {l : List α}
    (h : ∀ a ∈ l, decode (encode a) = some (kept a)) :
    list? decode (ofList encode l) = some (l.map kept) :=
  mapM_map h

theorem list?_ofList_self {encode : α → Json} {decode : Json → Option α} {l : List α}
    (h : ∀ a ∈ l, decode (encode a) = some a) : list? decode (ofList encode l) = some l :=
  (list?_ofList h).trans (congrArg some l.map_id)

theorem option?_ofOption {encode : α → Json} {decode : Json → Option α} {kept : α → α}
    {o : Option α} (value : ∀ a, encode a ≠ null)
    (h : ∀ a ∈ o, decode (encode a) = some (kept a)) :
    option? decode (ofOption encode o) = some (o.map kept) := by
  cases o with
  | none => rfl
  | some a =>
    have read : option? decode (encode a) = (decode (encode a)).map some := by
      cases e : encode a <;> first | rfl | exact absurd e (value a)
    rw [ofOption, read, h a rfl]
    rfl

/-! ## Records -/

theorem members?_object (names : List String) {members : List (String × Json)}
    (keys : members.map Prod.fst = names) (nodup : names.Nodup) :
    members? names (object members) = some ⟨members, keys ▸ nodup⟩ := by
  have all : members.filter (fun m => m.1 ∈ names) = members :=
    List.filter_eq_self.2 fun m hm => by simpa [keys] using List.mem_map_of_mem (f := Prod.fst) hm
  rw [members?, all]
  exact dif_pos (keys ▸ nodup)

/-- **An object with the fields of a record, in their order, is read as these fields.** -/
theorem record?_object {required defaulted : List String} {members : List (String × Json)}
    (keys : members.map Prod.fst = required ++ defaulted) (nodup : (required ++ defaulted).Nodup) :
    record? required defaulted (object members) = some ⟨members, keys ▸ nodup⟩ :=
  members?_object _ keys nodup

/-- One step of reading: what has been read is handed on. -/
theorem read {x : Option α} {a : α} (h : x = some a) {k : α → Option β} {r : Option β}
    (rest : k a = r) : (x >>= k) = r := by
  rw [h]
  exact rest

section Fields

variable {f : Fields} {name : String} {j : Json}

theorem get?_of_mem (mem : (name, j) ∈ f.entries) : f.get? name = some j :=
  (f.get?_eq_some_iff name j).2 mem

theorem Fields.field?_of_mem {decode : Json → Option α} {a : α} (h : decode j = some a)
    (mem : (name, j) ∈ f.entries) : f.field? name decode = some a :=
  read (get?_of_mem mem) h

/-- A field that is a text. -/
theorem Fields.text?_of_mem {s : String} (mem : (name, text s) ∈ f.entries) :
    f.field? name (·.text?) = some s := field?_of_mem rfl mem

/-- A field that is a truth value. -/
theorem Fields.boolean?_of_mem {b : Bool} (mem : (name, boolean b) ∈ f.entries) :
    f.field? name (·.boolean?) = some b := field?_of_mem rfl mem

theorem Fields.optional?_of_mem {decode : Json → Option α} {o : Option α}
    (h : option? decode j = some o) (mem : (name, j) ∈ f.entries) :
    f.optional? name decode = some o := by
  rw [optional?, get?_of_mem mem]
  exact h

theorem Fields.defaulted?_of_get? (found : f.get? name = some j) (default : α)
    (decode : Json → Option α) : f.defaulted? name default decode = decode j := by
  rw [defaulted?, found]

theorem Fields.defaulted?_of_missing (missing : f.get? name = none) (default : α)
    (decode : Json → Option α) : f.defaulted? name default decode = some default := by
  rw [defaulted?, missing]

end Fields

/-! ## Fields that may be missing -/

/-- A tree without the members of one name. -/
def without (name : String) : Json → Json
  | object members => object (members.filter fun m => m.1 ≠ name)
  | j => j

/-- Where a name occurs once, the tree without it is what is before and after its member. -/
theorem without_object {members : List (String × Json)} {name : String} {j : Json}
    (nodup : (members.map Prod.fst).Nodup) (mem : (name, j) ∈ members) :
    ∃ before after, members = before ++ (name, j) :: after ∧
      name ∉ (before ++ after).map Prod.fst ∧
      (object members).without name = object (before ++ after) := by
  obtain ⟨before, after, rfl⟩ := List.append_of_mem mem
  rw [List.map_append, List.map_cons, List.nodup_middle, List.nodup_cons,
    ← List.map_append] at nodup
  have others {l : List (String × Json)} (h : name ∉ l.map Prod.fst) :
      l.filter (fun m => m.1 ≠ name) = l :=
    List.filter_eq_self.2 fun m hm => decide_eq_true fun same =>
      h (same ▸ List.mem_map_of_mem hm)
  refine ⟨before, after, rfl, nodup.1, ?_⟩
  have kept := others nodup.1
  rw [List.filter_append] at kept
  rw [without, List.filter_append, List.filter_cons_of_neg (by simp), kept]

/-- Fields to which one is added that was missing. -/
structure Fields.Extends (f : Fields) (name : String) (j : Json) (g : Fields) : Prop where
  missing : f.get? name = none
  added : g.get? name = some j
  others : ∀ n ≠ name, g.get? n = f.get? n

theorem Fields.Extends.field?_eq {name n : String} {j : Json} {f g : Fields}
    (h : f.Extends name j g) (other : n ≠ name) (decode : Json → Option α) :
    g.field? n decode = f.field? n decode := by
  rw [field?, field?, h.others n other]

theorem distinctFields?_insert {before after : List (String × Json)} {name : String}
    (absent : name ∉ (before ++ after).map Prod.fst) (j : Json) :
    Option.Rel (Fields.Extends · name j ·) (distinctFields? (before ++ after))
      (distinctFields? (before ++ (name, j) :: after)) := by
  have same : ((before ++ (name, j) :: after).map Prod.fst).Nodup ↔
      ((before ++ after).map Prod.fst).Nodup := by
    rw [List.map_append] at absent
    rw [List.map_append, List.map_append, List.map_cons, List.nodup_middle, List.nodup_cons]
    exact and_iff_right absent
  by_cases h : ((before ++ after).map Prod.fst).Nodup
  · rw [distinctFields?, dif_pos h, distinctFields?, dif_pos (same.2 h)]
    refine .some ⟨Table.lookup_eq_none absent, ?_, fun n hn => Option.ext fun v => ?_⟩
    · exact (Table.get?_eq_some_iff _ _ _).2 (by simp)
    · rw [Table.get?_eq_some_iff, Table.get?_eq_some_iff]
      simp [hn]
  · rw [distinctFields?, dif_neg h, distinctFields?, dif_neg (same.not.2 h)]
    exact .none

/-- **A member with a new name adds a field and leaves the others.** -/
theorem record?_insert (required defaulted : List String) {before after : List (String × Json)}
    {name : String} (asked : name ∈ required ++ defaulted)
    (absent : name ∉ (before ++ after).map Prod.fst) (j : Json) :
    Option.Rel (Fields.Extends · name j ·) (record? required defaulted (object (before ++ after)))
      (record? required defaulted (object (before ++ (name, j) :: after))) := by
  simp only [record?, members?, List.filter_append, List.filter_cons, asked, decide_true, if_true]
  refine distinctFields?_insert (fun h => absent ?_) j
  rw [← List.filter_append] at h
  exact (List.filter_sublist.map _).mem h

/-! ## Alternatives -/

theorem tagged?_ofTagged {tag content : String} (apart : content ≠ tag) (name : String)
    (payload : Json) :
    (ofTagged tag content name payload).tagged? tag content = some (name, some payload) := by
  simp [ofTagged, tagged?, apart, bareCase?, case?]

/-- **A choice is read by its name,** if no other one has the name. -/
theorem choice?_text {choices : List α} {name : α → String} {a : α} (mem : a ∈ choices)
    (distinct : (choices.map name).Nodup) : choice? choices name (text (name a)) = some a := by
  show choices.find? (fun b => name b == name a) = some a
  induction choices with
  | nil => cases mem
  | cons c choices ih =>
    obtain ⟨new, distinct⟩ := List.nodup_cons.1 distinct
    rcases List.mem_cons.1 mem with rfl | mem
    · exact List.find?_cons_of_pos (beq_self_eq_true _)
    · have other : (name c == name a) = false :=
        beq_false_of_ne fun same => new (same ▸ List.mem_map_of_mem mem)
      rw [List.find?_cons, other]
      exact ih mem distinct

end PixelFlow.Json
