import PixelFlow.Proofs.Cache.Memory

/-!
# Sizes beyond a word

The size of an image is reckoned from dimensions that no pixels need to bear out, and sizes are
added up without a look at what a word can hold. Here each product and each sum is formed with that
look, in the order in which a cache forms them, and storing fails at the first one that a word does
not hold. So it is seen when the words that are counted with are the numbers they stand for.

* `word?`, `addWords?`, `mulWords?`: numbers that a word holds.
* **`Entry.size?_eq`**: the size of an entry can be formed iff a word holds its bytes.
* `Cache.put?`, `Cache.run?`: storing, and a run, with a look at every product and sum.
* **`Cache.put?_eq`**: that is well iff a word holds the bytes of the entry and of the others.
* `Cache.Checked`, **`Cache.checked_run`**: which runs form no number beyond a word.
* `Cache.size_wraps`: one image whose size is beyond a word.
-/

namespace PixelFlow

/-! ## Products and sums -/

/-- A number as a word, if a word holds it. -/
def word? (n : Nat) : Option UInt64 := if n < UInt64.size then some (.ofNat n) else none

def addWords? (a b : UInt64) : Option UInt64 := word? (a.toNat + b.toNat)

def mulWords? (a b : UInt64) : Option UInt64 := word? (a.toNat * b.toNat)

theorem word?_of_lt {n : Nat} (h : n < UInt64.size) : word? n = some (.ofNat n) := if_pos h

theorem word?_of_le {n : Nat} (h : UInt64.size ≤ n) : word? n = none := if_neg (Nat.not_lt.2 h)

theorem addWords?_eq (a b : UInt64) :
    addWords? a b = if a.toNat + b.toNat < UInt64.size then some (a + b) else none := by
  rw [addWords?, word?, UInt64.ofNat_add, UInt64.ofNat_toNat, UInt64.ofNat_toNat]

/-- A number to which another one is added fails at itself or at the sum. -/
theorem word?_bind {m n : Nat} {f : UInt64 → Option UInt64}
    (hf : ∀ a, f a = word? (a.toNat + n)) : (word? m).bind f = word? (m + n) := by
  by_cases hm : m < UInt64.size
  · rw [word?_of_lt hm, Option.bind_some, hf, UInt64.toNat_ofNat_of_lt' hm]
  · rw [word?_of_le (Nat.le_of_not_lt hm), word?_of_le (by omega)]
    rfl

theorem bind_addWords? (a : UInt64) (n : Nat) :
    (word? n).bind (addWords? a) = word? (a.toNat + n) := by
  rw [Nat.add_comm]
  exact word?_bind fun b => by rw [addWords?, Nat.add_comm]

/-- **Adding up one by one fails iff the sum is beyond a word.** -/
theorem foldlM_addWords? {α : Type} {f : α → Option UInt64} {g : α → Nat}
    (hf : ∀ x, f x = word? (g x)) (l : List α) (n : Nat) :
    (word? n).bind (l.foldlM fun a x => (f x).bind (addWords? a)) =
      word? (n + (l.map g).sum) := by
  induction l generalizing n with
  | nil => exact Option.bind_fun_some _
  | cons x l ih =>
    have first : (word? n).bind (fun a => (f x).bind (addWords? a)) = word? (n + g x) :=
      word?_bind fun a => by rw [hf, bind_addWords?]
    rw [List.map_cons, List.sum_cons, ← Nat.add_assoc, ← ih, ← first, Option.bind_assoc]
    rfl

/-- The memory of a value, with a look at each product and sum. -/
def Value.memory? : Value → Option UInt64
  | .image i => do
    let area ← mulWords? i.metadata.width.toUInt64 i.metadata.height.toUInt64
    let pixels ← mulWords? area 4
    addWords? valueOverhead pixels
  | _ => some valueOverhead

theorem Value.memory?_eq (v : Value) : v.memory? = word? v.bytes := by
  cases v with
  | image i =>
    -- The area alone always fits: it is the product of two numbers of 32 bits.
    have area : i.metadata.width.toNat * i.metadata.height.toNat < UInt64.size :=
      Nat.mul_lt_mul'' i.metadata.width.toNat_lt i.metadata.height.toNat_lt
    rw [memory?, mulWords?, UInt32.toNat_toUInt64, UInt32.toNat_toUInt64, word?_of_lt area]
    show (word? (_ * 4)).bind (addWords? valueOverhead) = word? (56 + _ * 4)
    rw [UInt64.toNat_ofNat_of_lt' area]
    exact bind_addWords? valueOverhead _
  | _ => rfl

/-- The size of an entry, output by output, with a look at each product and sum. -/
def Entry.size? (e : Entry) : Option UInt64 :=
  e.outputs.entries.foldlM (fun size (name, v) => do
    let length ← word? name.utf8ByteSize
    let memory ← v.memory?
    let output ← addWords? length memory
    addWords? size output) 0

/-- **The size of an entry can be formed iff a word holds its bytes.** -/
theorem Entry.size?_eq (e : Entry) : e.size? = word? e.bytes := by
  have output (p : String × Value) : ((word? p.1.utf8ByteSize).bind fun length =>
      p.2.memory?.bind (addWords? length)) = word? (p.1.utf8ByteSize + p.2.bytes) :=
    word?_bind fun a => by rw [p.2.memory?_eq, bind_addWords?]
  have sum := foldlM_addWords? output e.outputs.entries 0
  rw [Nat.zero_add] at sum
  rw [bytes, ← sum, size?]
  simp only [word?_of_lt (show 0 < UInt64.size by decide), Option.bind_some, Option.bind_assoc]
  rfl

namespace Cache

variable {c c' : Cache} {e : Entry} {l : List Entry} {k : UInt64} {uses : List Use}

/-! ## Storing -/

/-- Evict entries until `size` more bytes fit or none is left, with a look at each sum that is
compared with the limit. -/
def makeRoom? (size : UInt64) : List Entry → Cache → Option Cache
  | [], c => do
    let _ ← addWords? c.memory size
    return c
  | e :: rest, c => do
    let sum ← addWords? c.memory size
    if c.limit < sum then makeRoom? size rest (c.evict e rest) else return c

/-- Store an entry, with a look at each product and sum. -/
def put? (c : Cache) (e : Entry) : Option Cache := do
  let size ← e.size?
  let c := c.drop e.key
  let c := (← makeRoom? size c.entries c).makePlace
  let memory ← addWords? c.memory size
  return { c with entries := c.entries ++ [e], memory := memory }

/-- An eviction takes memory off. -/
theorem memory_evict_le (c : Cache) (e : Entry) (rest : List Entry) :
    (c.evict e rest).memory.toNat ≤ c.memory.toNat := by
  show (c.memoryWithout e).toNat ≤ _
  rw [toNat_memoryWithout]
  exact Nat.sub_le _ _

theorem memory_evictOldest_le (c : Cache) : c.evictOldest.memory.toNat ≤ c.memory.toNat := by
  unfold evictOldest
  split
  · exact Nat.le_refl _
  · exact c.memory_evict_le _ _

theorem memory_makePlace_le (c : Cache) : c.makePlace.memory.toNat ≤ c.memory.toNat := by
  unfold makePlace
  split
  · exact c.memory_evictOldest_le
  · exact Nat.le_refl _

theorem memory_makeRoom_le (k : UInt64) (l : List Entry) (c : Cache) :
    (makeRoom k l c).memory.toNat ≤ c.memory.toNat := by
  induction l generalizing c with
  | nil => exact Nat.le_refl _
  | cons e l ih =>
    unfold makeRoom
    split
    · exact Nat.le_trans (ih _) (c.memory_evict_le e l)
    · exact Nat.le_refl _

/-- The first sum decides: those that are formed after evictions are smaller. -/
theorem makeRoom?_eq (k : UInt64) (l : List Entry) (c : Cache) : makeRoom? k l c =
    if c.memory.toNat + k.toNat < UInt64.size then some (makeRoom k l c) else none := by
  induction l generalizing c with
  | nil =>
    rw [makeRoom?, addWords?_eq]
    split <;> rfl
  | cons e l ih =>
    rw [makeRoom?, addWords?_eq]
    split
    · next fits =>
      have rest : (c.evict e l).memory.toNat + k.toNat < UInt64.size := by
        have := c.memory_evict_le e l
        omega
      show (if c.limit < _ then _ else some c) = some _
      rw [makeRoom, ih, if_pos rest, apply_ite some]
    · rfl

/-- **An entry can be stored without a number beyond a word iff a word holds its bytes together with
the memory of the entries of other keys.** -/
theorem put?_eq (c : Cache) (e : Entry) : c.put? e =
    if (c.drop e.key).memory.toNat + e.bytes < UInt64.size then some (c.put e) else none := by
  rw [put?, e.size?_eq]
  by_cases fits : e.bytes < UInt64.size
  · have hsize : e.size.toNat = e.bytes := by
      rw [e.size_eq, UInt64.toNat_ofNat_of_lt' fits]
    rw [word?_of_lt fits, ← e.size_eq]
    show (makeRoom? e.size _ _).bind _ = _
    rw [makeRoom?_eq, hsize]
    split
    · next hsum =>
      generalize hr : (makeRoom e.size (c.drop e.key).entries (c.drop e.key)).makePlace = r
      have hle : r.memory.toNat ≤ (c.drop e.key).memory.toNat :=
        hr ▸ Nat.le_trans (memory_makePlace_le _) (memory_makeRoom_le _ _ _)
      rw [put_eq, hr, Option.bind_some, hr]
      show (addWords? r.memory e.size).bind _ = _
      rw [addWords?_eq, if_pos (by omega)]
      rfl
    · rfl
  · rw [word?_of_le (Nat.le_of_not_lt fits), if_neg (by omega)]
    rfl

/-! ## Runs -/

/-- Do something to a cache, with a look at each product and sum. -/
def use? (c : Cache) : Use → Option Cache
  | .put e => c.put? e
  | u => some (c.use u).2

/-- What is left of a cache after a sequence of uses, if no number was beyond a word. -/
def run? (c : Cache) : List Use → Option Cache
  | [] => some c
  | u :: uses => do (← c.use? u).run? uses

/-- The bytes of entries together, however many. -/
def bytes (l : List Entry) : Nat := (l.map (·.bytes)).sum

/-- The bytes that a word is to hold in a use: when an entry is stored, its own and those of the
entries of other keys. -/
def needed (c : Cache) : Use → Nat
  | .put e => bytes (c.others e.key) + e.bytes
  | _ => 0

/-- Sizes are the bytes that entries have, and the memory is their sum. -/
structure Unwrapped (c : Cache) : Prop where
  exact : c.Exact
  sizes : ∀ e ∈ c.entries, e.size.toNat = e.bytes

theorem total_eq_bytes (h : ∀ e ∈ l, e.size.toNat = e.bytes) : total l = bytes l :=
  congrArg List.sum (List.map_congr_left h)

theorem total_put_le (h : c.Regular) (e : Entry) :
    total (c.put e).entries ≤ total (c.others e.key) + e.size.toNat := by
  obtain ⟨m, n, hc, hp⟩ := c.put_spec e
  obtain ⟨memory, hm⟩ := append_evict_eq hc.le_size
  have hle := total_le_of_sublist (List.drop_sublist n (c.drop e.key).entries)
  rw [h.entries_drop] at hm hle
  rw [hp, hm]
  show total ((c.others e.key).drop n ++ [e]) ≤ _
  rw [total_append, total_cons, total_nil]
  omega

namespace Unwrapped

theorem total_others (h : c.Unwrapped) (key : CacheKey) :
    total (c.others key) = bytes (c.others key) :=
  total_eq_bytes fun x hx => h.sizes x (List.mem_filter.1 hx).1

/-- Where nothing has wrapped, no use forms a number beyond a word unless a word is too small for
what it needs. -/
theorem use?_eq (h : c.Unwrapped) (hr : c.Regular) (u : Use) : c.use? u =
    if c.needed u < UInt64.size then some (c.use u).2 else none := by
  cases u with
  | put e =>
    have others : (c.drop e.key).memory.toNat = bytes (c.others e.key) := by
      rw [h.exact.drop e.key, hr.entries_drop, h.total_others]
    rw [use?, put?_eq, others]
    rfl
  | _ => rfl

theorem use (h : c.Unwrapped) (hr : c.Regular) {u : Use} (fits : c.needed u < UInt64.size) :
    (c.use u).2.Unwrapped := by
  cases u with
  | put e =>
    have fits : bytes (c.others e.key) + e.bytes < UInt64.size := fits
    have hsize : e.size.toNat = e.bytes := by
      rw [e.size_eq, UInt64.toNat_ofNat_of_lt' (by omega)]
    have hle := total_put_le hr e
    rw [h.total_others, hsize] at hle
    refine ⟨h.exact.put (by omega), fun x hx => ?_⟩
    rcases mem_of_put hx with rfl | hx
    · exact hsize
    · exact h.sizes x hx
  | get key => exact ⟨h.exact.get key, fun x hx => h.sizes x (mem_of_get hx)⟩
  | clear => exact ⟨rfl, fun x hx => nomatch hx⟩

end Unwrapped

/-- **Which runs form no number beyond a word, and what becomes of them.** -/
structure Checked (c : Cache) (uses : List Use) : Prop where
  /-- A run fails iff an entry is stored whose bytes, with those of the entries of other keys that
  are there, are too many for a word. -/
  fails : c.run? uses = none ↔
    ∃ pre u post, uses = pre ++ u :: post ∧ UInt64.size ≤ (c.run pre).needed u
  /-- Else the words are the numbers they stand for: the size of each entry is the bytes of its
  names and values, and the memory is the sum of the sizes. -/
  exact : ∀ c', c.run? uses = some c' → c' = c.run uses ∧
    (∀ e ∈ c'.entries, e.size.toNat = e.bytes) ∧ c'.memory.toNat = bytes c'.entries

theorem Unwrapped.checked (h : c.Unwrapped) (hr : c.Regular) (uses : List Use) :
    c.Checked uses := by
  induction uses generalizing c with
  | nil =>
    refine ⟨⟨fun hn => (nomatch hn), ?_⟩, ?_⟩
    · rintro ⟨pre, u, post, he, _⟩
      exact absurd he.symm (List.append_ne_nil_of_right_ne_nil pre (List.cons_ne_nil u post))
    · rintro c' he
      obtain rfl := Option.some.inj he
      exact ⟨rfl, h.sizes, h.exact.trans (total_eq_bytes h.sizes)⟩
  | cons u uses ih =>
    have step : c.run? (u :: uses) = (c.use? u).bind (·.run? uses) := rfl
    rw [h.use?_eq hr] at step
    by_cases fits : c.needed u < UInt64.size
    · have rest := ih (h.use hr fits) (hr.use u)
      rw [if_pos fits, Option.bind_some] at step
      refine ⟨?_, step ▸ rest.exact⟩
      rw [step, rest.fails]
      constructor
      · rintro ⟨pre, v, post, rfl, hn⟩
        exact ⟨u :: pre, v, post, rfl, hn⟩
      · rintro ⟨pre, v, post, he, hn⟩
        cases pre with
        | nil =>
          obtain ⟨rfl, _⟩ := List.cons.inj he
          exact absurd fits (Nat.not_lt.2 hn)
        | cons w pre =>
          obtain ⟨rfl, rfl⟩ := List.cons.inj he
          exact ⟨pre, v, post, rfl, hn⟩
    · rw [if_neg fits] at step
      refine ⟨⟨fun _ => ?_, fun _ => step⟩, fun c' he => (nomatch step.symm.trans he)⟩
      exact ⟨[], u, uses, rfl, Nat.le_of_not_lt fits⟩

/-- **Whatever is done to a cache, a product or a sum is beyond a word iff an entry is stored whose
bytes, with those of the entries of other keys, are**; and if none is, nothing has wrapped. -/
theorem checked_run (capacity megabytes : Nat) (expires : Bool) (uses : List Use) :
    (new capacity megabytes expires).Checked uses := by
  have h₀ : (new capacity megabytes expires).Unwrapped :=
    ⟨rfl, fun e he => (List.not_mem_nil he).elim⟩
  exact h₀.checked (regular_new capacity megabytes expires) uses

/-- **The size of an image of 2 ^ 31 by 2 ^ 31 pixels is beyond a word**: what is counted for it is
the size of a number. -/
theorem size_wraps :
    (new 64 512 false).run? [.put (pictured "a" 2147483648 2147483648)] = none ∧
    (pictured "a" 2147483648 2147483648).bytes = UInt64.size + 57 ∧
    ((new 64 512 false).run [.put (pictured "a" 2147483648 2147483648)]).memory = 57 := by
  decide +kernel

end Cache

end PixelFlow
