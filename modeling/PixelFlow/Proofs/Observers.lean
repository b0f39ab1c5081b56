import PixelFlow.Observers
import Mathlib.Data.List.Induction
import Mathlib.Data.List.Nodup
import Mathlib.Data.List.TakeWhile

/-!
# The windows of observers

An observer hears what happens between its subscription and the end of it. The handle of a
subscription is the number of those before it, so that none is given out twice and a counter of
sixty-four bits is enough for `2 ^ 64` of them.

* `Observers.Call`, `Observers.run`: calls in a row, and who is told what.
* `Observers.subscriptions`, `Observers.live`: the subscriptions, and those that have not ended,
  read off the calls alone; `Observers.Subscription.events`: the events of a window.
* `Observers.subscribed_run`: the list of observers is that of the live subscriptions.
* `Observers.heard_run`: different observers are told the events of their windows.
* `Observers.marked`: calls whose observers are told apart by their handles; without the marks the
  same is told (`Observers.run_map`).
* **`Observers.windows_run`**: after any calls, each subscription has been told the events of its
  window, and a handle ends its own subscription only.
-/

namespace PixelFlow.Observers

variable {α β ε : Type}

/-! ## Calls -/

inductive Call (α ε : Type)
  | subscribe (observer : α)
  | unsubscribe (id : ObserverId)
  | emit (events : List ε)

namespace Call

/-- The observer that subscribes. -/
def observer? : Call α ε → Option α
  | subscribe a => some a
  | _ => none

def events : Call α ε → List ε
  | emit events => events
  | _ => []

/-- Whether a call ends the subscription of a handle. -/
def ends (id : ObserverId) : Call α ε → Bool
  | unsubscribe i => i = id
  | _ => false

/-- The call with another observer in the place of the one that subscribes. -/
def map (f : α → β) : Call α ε → Call β ε
  | subscribe a => subscribe (f a)
  | unsubscribe id => unsubscribe id
  | emit events => emit events

@[simp]
theorem events_map (f : α → β) (k : Call α ε) : (k.map f).events = k.events := by
  cases k <;> rfl

@[simp]
theorem ends_map (f : α → β) (id : ObserverId) (k : Call α ε) : (k.map f).ends id = k.ends id := by
  cases k <;> rfl

end Call

/-- The observers after a call, and who is told what. -/
def call (o : Observers α) : Call α ε → Observers α × List (α × ε)
  | .subscribe a => ((o.subscribe a).2, [])
  | .unsubscribe id => (o.unsubscribe id, [])
  | .emit events => (o, o.deliveries events)

/-- The observers after a list of calls, and all that was told, in order. -/
def run (calls : List (Call α ε)) : Observers α × List (α × ε) :=
  calls.foldl (fun x k => ((x.1.call k).1, x.2 ++ (x.1.call k).2)) (empty, [])

theorem run_concat (ks : List (Call α ε)) (k : Call α ε) :
    run (ks ++ [k]) = (((run ks).1.call k).1, (run ks).2 ++ ((run ks).1.call k).2) :=
  List.foldl_concat ..

/-! ## Subscriptions -/

/-- A subscription, and the calls since. -/
structure Subscription (α ε : Type) where
  id : ObserverId
  observer : α
  since : List (Call α ε)

namespace Subscription

def isLive (s : Subscription α ε) : Bool := s.since.all fun k => !k.ends s.id

/-- The events up to the end of a subscription. -/
def events (s : Subscription α ε) : List ε :=
  (s.since.takeWhile fun k => !k.ends s.id).flatMap (·.events)

/-- The subscription after one more call. -/
def followed (s : Subscription α ε) (k : Call α ε) : Subscription α ε :=
  { s with since := s.since ++ [k] }

/-- The entry of a subscription in the list of observers. -/
def entry (s : Subscription α ε) : ObserverId × α := (s.id, s.observer)

theorem isLive_followed (s : Subscription α ε) (k : Call α ε) :
    (s.followed k).isLive = (s.isLive && !k.ends s.id) := by
  simp [isLive, followed]

/-- A live subscription gets the events of one more call, another one gets nothing. -/
theorem events_followed (s : Subscription α ε) (k : Call α ε) :
    (s.followed k).events = s.events ++ if s.isLive then k.events else [] := by
  simp only [events, followed]
  split
  · next h =>
    have all : ∀ j ∈ s.since, (!j.ends s.id) = true := List.all_eq_true.1 h
    rw [List.takeWhile_append_of_pos all, List.flatMap_append, List.takeWhile_eq_self_iff.2 all]
    cases k with
    | unsubscribe i => by_cases hi : i = s.id <;> simp [Call.ends, Call.events, hi]
    | subscribe a => simp [Call.ends, Call.events]
    | emit events => simp [Call.ends, Call.events]
  · next h =>
    have cut : (s.since.takeWhile fun k => !k.ends s.id).length ≠ s.since.length := fun e =>
      h (List.all_eq_true.2 (List.takeWhile_eq_self_iff.1
        ((List.takeWhile_sublist _).eq_of_length e)))
    rw [List.takeWhile_append, if_neg cut, List.append_nil]

end Subscription

/-- The subscriptions among calls that come after `n` other ones, in order. -/
def subscriptionsFrom (n : Nat) : List (Call α ε) → List (Subscription α ε)
  | [] => []
  | .subscribe a :: ks => ⟨⟨n⟩, a, ks⟩ :: subscriptionsFrom (n + 1) ks
  | .unsubscribe _ :: ks | .emit _ :: ks => subscriptionsFrom n ks

def subscriptions (calls : List (Call α ε)) : List (Subscription α ε) := subscriptionsFrom 0 calls

/-- The subscriptions that have not ended, in the order in which they began. -/
def live (calls : List (Call α ε)) : List (Subscription α ε) :=
  (subscriptions calls).filter (·.isLive)

/-- The subscription that a call begins, after `n` other ones. -/
def begun (n : Nat) (k : Call α ε) : List (Subscription α ε) :=
  (k.observer?.map fun a => ⟨⟨n⟩, a, []⟩).toList

theorem subscriptionsFrom_concat (n : Nat) (ks : List (Call α ε)) (k : Call α ε) :
    subscriptionsFrom n (ks ++ [k]) = (subscriptionsFrom n ks).map (·.followed k) ++
      begun (n + (subscriptionsFrom n ks).length) k := by
  induction ks generalizing n with
  | nil => cases k <;> rfl
  | cons j ks ih =>
    cases j with
    | subscribe a =>
      rw [List.cons_append, subscriptionsFrom, subscriptionsFrom, ih, List.length_cons,
        Nat.add_right_comm n 1]
      rfl
    | unsubscribe i => exact ih n
    | emit events => exact ih n

theorem subscriptions_concat (ks : List (Call α ε)) (k : Call α ε) :
    subscriptions (ks ++ [k]) =
      (subscriptions ks).map (·.followed k) ++ begun (subscriptions ks).length k := by
  rw [subscriptions, subscriptionsFrom_concat, Nat.zero_add]
  rfl

theorem live_concat (ks : List (Call α ε)) (k : Call α ε) :
    live (ks ++ [k]) = (((live ks).filter fun s => !k.ends s.id).map (·.followed k)) ++
      begun (subscriptions ks).length k := by
  have fresh : (begun (subscriptions ks).length k).filter (·.isLive) =
      begun (subscriptions ks).length k := by
    cases k <;> rfl
  rw [live, subscriptions_concat, List.filter_append, fresh, List.filter_map, live,
    List.filter_filter]
  refine congrArg (· ++ _) (congrArg _ (List.filter_congr fun s _ => ?_))
  rw [Function.comp_apply, Subscription.isLive_followed, Bool.and_comm]

/-- Handles are counted. -/
theorem ids_subscriptionsFrom (n : Nat) (ks : List (Call α ε)) :
    (subscriptionsFrom n ks).map (·.id.number) =
      List.range' n (subscriptionsFrom n ks).length := by
  induction ks generalizing n with
  | nil => rfl
  | cons j ks ih =>
    cases j with
    | subscribe a =>
      rw [subscriptionsFrom, List.map_cons, ih, List.length_cons, List.range'_succ]
    | unsubscribe i => exact ih n
    | emit events => exact ih n

theorem nodup_ids (ks : List (Call α ε)) : ((subscriptions ks).map (·.id)).Nodup := by
  refine List.Nodup.of_map (·.number) ?_
  rw [List.map_map]
  exact (ids_subscriptionsFrom 0 ks).symm ▸ List.nodup_range'

/-- **The observers are those of the live subscriptions**, and the next handle is the number of
subscriptions. -/
theorem subscribed_run (ks : List (Call α ε)) :
    (run ks).1.subscribed = (live ks).map (·.entry) ∧
      (run ks).1.next = (subscriptions ks).length := by
  induction ks using List.reverseRecOn with
  | nil => exact ⟨rfl, rfl⟩
  | append_singleton ks k ih =>
    obtain ⟨subscribed, next⟩ := ih
    rw [run_concat, live_concat, subscriptions_concat, List.map_append, List.map_map,
      List.length_append, List.length_map]
    cases k with
    | subscribe a =>
      refine ⟨?_, congrArg (· + 1) next⟩
      show (run ks).1.subscribed ++ [(⟨(run ks).1.next⟩, a)] = _
      rw [subscribed, next]
      simp [Call.ends, begun, Call.observer?, Subscription.entry, Subscription.followed,
        Function.comp_def]
    | unsubscribe i =>
      refine ⟨?_, next⟩
      show (run ks).1.subscribed.filter (·.1 ≠ i) = _
      rw [subscribed, List.filter_map]
      simp [Call.ends, begun, Call.observer?, Subscription.entry, Subscription.followed,
        Function.comp_def, eq_comm]
    | emit events =>
      refine ⟨?_, next⟩
      show (run ks).1.subscribed = _
      rw [subscribed]
      simp [Call.ends, begun, Call.observer?, Subscription.entry, Subscription.followed,
        Function.comp_def]

/-! ## One observer among the others -/

/-- Only those who have subscribed are told anything. -/
theorem told_run (ks : List (Call α ε)) :
    ∀ x ∈ (run ks).2, x.1 ∈ (subscriptions ks).map (·.observer) := by
  induction ks using List.reverseRecOn with
  | nil => exact fun x hx => (List.not_mem_nil hx).elim
  | append_singleton ks k ih =>
    have kept : ∀ a ∈ (subscriptions ks).map (·.observer),
        a ∈ (subscriptions (ks ++ [k])).map (·.observer) := fun a ha => by
      rw [subscriptions_concat, List.map_append, List.map_map]
      exact List.mem_append_left _ ha
    rw [run_concat]
    intro x hx
    rcases List.mem_append.1 hx with hx | hx
    · exact kept _ (ih x hx)
    · cases k with
      | subscribe a => exact (List.not_mem_nil hx).elim
      | unsubscribe i => exact (List.not_mem_nil hx).elim
      | emit events =>
        obtain ⟨e, _, hx⟩ := List.mem_flatMap.1 hx
        obtain ⟨y, hy, rfl⟩ := List.mem_map.1 hx
        rw [(subscribed_run ks).1] at hy
        obtain ⟨s, hs, rfl⟩ := List.mem_map.1 hy
        exact kept _ (List.mem_map.2 ⟨s, (List.mem_filter.1 hs).1, rfl⟩)

section Heard

variable [DecidableEq α]

/-- What one observer is told. -/
def heard (a : α) (told : List (α × ε)) : List ε :=
  told.filterMap fun (b, e) => if b = a then some e else none

theorem heard_append (a : α) (told told' : List (α × ε)) :
    heard a (told ++ told') = heard a told ++ heard a told' := List.filterMap_append

/-- An event is heard once for each subscription. -/
theorem heard_map (a : α) (e : ε) (subscribed : List (ObserverId × α)) :
    heard a (subscribed.map fun (_, b) => (b, e)) =
      List.replicate ((subscribed.map (·.2)).count a) e := by
  induction subscribed with
  | nil => rfl
  | cons x xs ih =>
    rw [heard] at ih
    rw [heard, List.map_cons, List.filterMap_cons, ih, List.map_cons, List.count_cons]
    by_cases hx : x.2 = a
    · simp [hx, List.replicate_succ]
    · simp [hx]

theorem heard_deliveries (o : Observers α) (a : α) (events : List ε) :
    heard a (o.deliveries events) =
      events.flatMap (List.replicate ((o.subscribed.map (·.2)).count a)) := by
  induction events with
  | nil => rfl
  | cons e events ih =>
    rw [deliveries, List.flatMap_cons, heard_append, heard_map, List.flatMap_cons]
    exact congrArg _ ih

/-- What a call tells one of several different observers. -/
theorem heard_call {ks : List (Call α ε)} (distinct : ((subscriptions ks).map (·.observer)).Nodup)
    {s : Subscription α ε} (hs : s ∈ subscriptions ks) (k : Call α ε) :
    heard s.observer ((run ks).1.call k).2 = if s.isLive then k.events else [] := by
  cases k with
  | subscribe a => exact (ite_self []).symm
  | unsubscribe i => exact (ite_self []).symm
  | emit events =>
    have observers : (run ks).1.subscribed.map (·.2) = (live ks).map (·.observer) := by
      rw [(subscribed_run ks).1, List.map_map]
      rfl
    have some_live : s.observer ∈ (live ks).map (·.observer) ↔ s.isLive := by
      constructor
      · intro h
        obtain ⟨t, ht, e⟩ := List.mem_map.1 h
        obtain ⟨ht, alive⟩ := List.mem_filter.1 ht
        exact List.inj_on_of_nodup_map distinct ht hs e ▸ alive
      · exact fun h => List.mem_map.2 ⟨s, List.mem_filter.2 ⟨hs, h⟩, rfl⟩
    have once : ((live ks).map (·.observer)).Nodup :=
      distinct.sublist (List.filter_sublist.map _)
    rw [call, heard_deliveries, observers, once.count]
    simp only [some_live, Call.events]
    split
    · exact List.flatMap_singleton' events
    · exact List.flatMap_eq_nil_iff.2 fun _ _ => rfl

/-- **Different observers are told the events of their windows.** -/
theorem heard_run (ks : List (Call α ε))
    (distinct : ((subscriptions ks).map (·.observer)).Nodup) :
    ∀ s ∈ subscriptions ks, heard s.observer (run ks).2 = s.events := by
  induction ks using List.reverseRecOn with
  | nil => exact fun s hs => (List.not_mem_nil hs).elim
  | append_singleton ks k ih =>
    rw [subscriptions_concat, List.map_append, List.map_map] at distinct
    obtain ⟨before, _, apart⟩ := List.nodup_append.1 distinct
    rw [subscriptions_concat, run_concat]
    intro s hs
    rcases List.mem_append.1 hs with hs | hs
    · obtain ⟨t, ht, rfl⟩ := List.mem_map.1 hs
      rw [Subscription.events_followed, heard_append, ← ih before t ht]
      exact congrArg _ (heard_call before ht k)
    · -- a new observer has not been told anything
      have nothing : ∀ x ∈ (run ks).2, x.1 ≠ s.observer := fun x hx =>
        apart _ (told_run ks x hx) _ (List.mem_map.2 ⟨s, hs, rfl⟩)
      cases k with
      | subscribe a =>
        obtain rfl := List.mem_singleton.1 hs
        rw [heard_append, heard, List.filterMap_eq_nil_iff.2 fun x hx => if_neg (nothing x hx)]
        rfl
      | unsubscribe i => exact (List.not_mem_nil hs).elim
      | emit events => exact (List.not_mem_nil hs).elim

end Heard

/-! ## Observers with marks -/

/-- The observers with others in their places. -/
def map (f : α → β) (o : Observers α) : Observers β :=
  ⟨o.next, o.subscribed.map fun (id, a) => (id, f a)⟩

theorem call_map (f : α → β) (o : Observers α) (k : Call α ε) :
    (o.map f).call (k.map f) =
      ((o.call k).1.map f, (o.call k).2.map fun (a, e) => (f a, e)) := by
  cases k with
  | subscribe a =>
    refine Prod.ext (congrArg (mk (o.next + 1)) ?_) rfl
    show (o.map f).subscribed ++ _ = (o.subscribed ++ _).map _
    rw [List.map_append]
    rfl
  | unsubscribe i => exact Prod.ext (congrArg (mk o.next) List.filter_map) rfl
  | emit events =>
    refine Prod.ext rfl ?_
    show (o.map f).deliveries events = (o.deliveries events).map _
    simp only [deliveries, map, List.map_flatMap, List.map_map, Function.comp_def]

/-- Other observers in the places of these are told the same. -/
theorem run_map (f : α → β) (ks : List (Call α ε)) :
    run (ks.map (·.map f)) = ((run ks).1.map f, (run ks).2.map fun (a, e) => (f a, e)) := by
  induction ks using List.reverseRecOn with
  | nil => rfl
  | append_singleton ks k ih =>
    rw [List.map_append, List.map_singleton, run_concat, run_concat, ih, call_map, List.map_append]

/-- The subscription of another observer in the place of this one. -/
def Subscription.map (f : α → β) (s : Subscription α ε) : Subscription β ε :=
  ⟨s.id, f s.observer, s.since.map (·.map f)⟩

theorem Subscription.events_map (f : α → β) (s : Subscription α ε) :
    (s.map f).events = s.events := by
  simp [events, map, List.takeWhile_map, List.flatMap_map, Function.comp_def]

theorem subscriptionsFrom_map (f : α → β) (n : Nat) (ks : List (Call α ε)) :
    subscriptionsFrom n (ks.map (·.map f)) = (subscriptionsFrom n ks).map (·.map f) := by
  induction ks generalizing n with
  | nil => rfl
  | cons k ks ih =>
    cases k with
    | subscribe a => exact congrArg (_ :: ·) (ih (n + 1))
    | unsubscribe i => exact ih n
    | emit events => exact ih n

/-- Calls that come after `n` subscriptions, with each observer marked with its handle. -/
def markedFrom (n : Nat) : List (Call α ε) → List (Call (ObserverId × α) ε)
  | [] => []
  | .subscribe a :: ks => .subscribe (⟨n⟩, a) :: markedFrom (n + 1) ks
  | .unsubscribe id :: ks => .unsubscribe id :: markedFrom n ks
  | .emit events :: ks => .emit events :: markedFrom n ks

def marked (calls : List (Call α ε)) : List (Call (ObserverId × α) ε) := markedFrom 0 calls

theorem map_markedFrom (n : Nat) (ks : List (Call α ε)) :
    (markedFrom n ks).map (·.map Prod.snd) = ks := by
  induction ks generalizing n with
  | nil => rfl
  | cons k ks ih => cases k <;> exact congrArg (_ :: ·) (ih _)

/-- Each mark is the handle of the subscription. -/
theorem mark_eq {n : Nat} {ks : List (Call α ε)} :
    ∀ t ∈ subscriptionsFrom n (markedFrom n ks), t.observer.1 = t.id := by
  induction ks generalizing n with
  | nil => exact fun t ht => (List.not_mem_nil ht).elim
  | cons k ks ih =>
    cases k with
    | subscribe a => exact List.forall_mem_cons.2 ⟨rfl, ih⟩
    | unsubscribe i => exact ih
    | emit events => exact ih

theorem run_marked (ks : List (Call α ε)) :
    (run (marked ks)).2.map (fun (x, e) => (x.2, e)) = (run ks).2 := by
  have same := run_map Prod.snd (marked ks)
  rw [marked, map_markedFrom, ← marked] at same
  exact (congrArg Prod.snd same).symm

/-- The subscriptions are those of the marked observers, without the marks. -/
theorem mem_subscriptions_iff {ks : List (Call α ε)} {s : Subscription α ε} :
    s ∈ subscriptions ks ↔ ∃ t ∈ subscriptions (marked ks), t.map Prod.snd = s := by
  have same := subscriptionsFrom_map Prod.snd 0 (marked ks)
  rw [marked, map_markedFrom] at same
  rw [subscriptions, same, List.mem_map]
  rfl

theorem entry_map {ks : List (Call α ε)} {t : Subscription (ObserverId × α) ε}
    (ht : t ∈ subscriptions (marked ks)) : (t.map Prod.snd).entry = t.observer :=
  Prod.ext (mark_eq t ht).symm rfl

section Marked

variable [DecidableEq α]

/-- **Each subscription is told the events of its window.** -/
theorem heard_marked (ks : List (Call α ε)) :
    ∀ s ∈ subscriptions ks, heard s.entry (run (marked ks)).2 = s.events := by
  have distinct : ((subscriptions (marked ks)).map (·.observer)).Nodup := by
    refine List.Nodup.of_map Prod.fst ?_
    rw [List.map_map]
    exact List.map_congr_left mark_eq ▸ nodup_ids (marked ks)
  intro s hs
  obtain ⟨t, ht, rfl⟩ := mem_subscriptions_iff.1 hs
  rw [entry_map ht, t.events_map]
  exact heard_run (marked ks) distinct t ht

/-- An observer that subscribes once is told the events of its window. -/
theorem heard_once (ks : List (Call α ε)) {s : Subscription α ε} (hs : s ∈ subscriptions ks)
    (once : ∀ t ∈ subscriptions ks, t.observer = s.observer → t = s) :
    heard s.observer (run ks).2 = s.events := by
  rw [← heard_marked ks s hs, ← run_marked ks, heard, heard, List.filterMap_map]
  refine List.filterMap_congr fun x hx => ?_
  have addressed : x.1.2 = s.observer ↔ x.1 = s.entry := by
    refine ⟨fun h => ?_, fun h => congrArg Prod.snd h⟩
    obtain ⟨t, ht, e⟩ := List.mem_map.1 (told_run _ x hx)
    rw [← e, ← entry_map ht,
      once _ (mem_subscriptions_iff.2 ⟨t, ht, rfl⟩) ((congrArg Prod.snd e).trans h)]
  simp only [Function.comp_apply, addressed]

end Marked

/-! ## Windows -/

/-- A handle that is live ends its own subscription, and no other one. -/
theorem unsubscribe_run (calls : List (Call α ε)) {first last : List (Subscription α ε)}
    {s : Subscription α ε} (h : live calls = first ++ s :: last) :
    ((run calls).1.unsubscribe s.id).subscribed = (first ++ last).map (·.entry) := by
  have distinct : ((live calls).map (·.id)).Nodup :=
    (nodup_ids calls).sublist (List.filter_sublist.map _)
  rw [h, List.map_append, List.map_cons, List.nodup_middle, List.nodup_cons, List.mem_append,
    not_or] at distinct
  obtain ⟨⟨hf, hl⟩, _⟩ := distinct
  have others : ∀ l : List (Subscription α ε), s.id ∉ l.map (·.id) →
      (l.map (·.entry)).filter (·.1 ≠ s.id) = l.map (·.entry) := fun l hs =>
    List.filter_eq_self.2 fun x hx => decide_eq_true fun e => by
      obtain ⟨t, ht, rfl⟩ := List.mem_map.1 hx
      exact hs (List.mem_map.2 ⟨t, ht, e⟩)
  rw [unsubscribe, (subscribed_run calls).1, h, List.map_append, List.map_cons,
    List.filter_append, List.filter_cons_of_neg (by simp [Subscription.entry]), others _ hf,
    others _ hl, List.map_append]

theorem isSubscribed_run (calls : List (Call α ε)) (id : ObserverId) :
    (run calls).1.isSubscribed id = true ↔ id ∈ (live calls).map (·.id) := by
  rw [isSubscribed, (subscribed_run calls).1, List.any_map, List.any_eq_true, List.mem_map]
  simp [Subscription.entry]

/-- Whether a handle leaves fewer observers behind. -/
def unsubscribes (o : Observers α) (id : ObserverId) : Bool := (o.unsubscribe id).size ≠ o.size

/-- There are fewer observers exactly if one had the handle. -/
theorem unsubscribes_eq (o : Observers α) (id : ObserverId) :
    o.unsubscribes id = o.isSubscribed id := by
  rw [Bool.eq_iff_iff, unsubscribes, decide_eq_true_iff, isSubscribed, List.any_eq_true]
  constructor
  · intro h
    by_contra none
    refine h (congrArg List.length (List.filter_eq_self.2 fun x hx => decide_eq_true fun e => ?_))
    exact none ⟨x, hx, beq_iff_eq.2 e⟩
  · rintro ⟨x, hx, e⟩
    have dropped : ∃ y ∈ o.subscribed, ¬decide (y.1 ≠ id) = true := ⟨x, hx, by simpa using e⟩
    exact (List.length_filter_lt_length_iff_exists.2 dropped).ne

/-- **Observers are told their windows.** After any calls each subscription has been told the events
up to its end, in order, and so has an observer that subscribes once. More events are told to the
live observers one after the other, in the order in which they subscribed. A handle is new when it
is given out, and later it ends the subscription that it was given out for, as long as that is live;
any other handle changes nothing. -/
theorem windows_run [DecidableEq α] (calls : List (Call α ε)) :
    ((run (marked calls)).2.map (fun (x, e) => (x.2, e)) = (run calls).2 ∧
      ∀ s ∈ subscriptions calls, heard s.entry (run (marked calls)).2 = s.events) ∧
    (∀ s ∈ subscriptions calls, (∀ t ∈ subscriptions calls, t.observer = s.observer → t = s) →
      heard s.observer (run calls).2 = s.events) ∧
    (∀ events, (run (calls ++ [.emit events])).2 = (run calls).2 ++
      events.flatMap fun e => (live calls).map fun s => (s.observer, e)) ∧
    (∀ a, (subscriptions (calls ++ [.subscribe a])).getLast? =
        some ⟨((run calls).1.subscribe a).1, a, []⟩ ∧
      ((run calls).1.subscribe a).1 ∉ (subscriptions calls).map (·.id)) ∧
    (run calls).1.next = (subscriptions calls).length ∧
    (run calls).1.subscribed = (live calls).map (·.entry) ∧
    (∀ id, (run calls).1.unsubscribes id = true ↔ id ∈ (live calls).map (·.id)) ∧
    (∀ first s last, live calls = first ++ s :: last →
      ((run calls).1.unsubscribe s.id).subscribed = (first ++ last).map (·.entry)) ∧
    (∀ id, id ∉ (live calls).map (·.id) → (run calls).1.unsubscribe id = (run calls).1) := by
  obtain ⟨subscribed, next⟩ := subscribed_run calls
  refine ⟨⟨run_marked calls, heard_marked calls⟩, fun s hs => heard_once calls hs,
    fun events => ?_, fun a => ?_, next, subscribed, fun id => ?_,
    fun first s last h => unsubscribe_run calls h, fun id stale => ?_⟩
  · rw [run_concat]
    refine congrArg _ (List.flatMap_congr fun e _ => ?_)
    rw [subscribed, List.map_map]
    rfl
  · have handle : ((run calls).1.subscribe a).1 = ⟨(subscriptions calls).length⟩ :=
      congrArg ObserverId.mk next
    rw [handle]
    constructor
    · rw [subscriptions_concat]
      exact List.getLast?_concat
    · have again := nodup_ids (calls ++ [.subscribe a])
      rw [subscriptions_concat, List.map_append, List.map_map] at again
      exact fun h => (List.nodup_append.1 again).2.2 _ h _ (List.mem_singleton.2 rfl) rfl
  · rw [unsubscribes_eq, isSubscribed_run]
  · rw [← isSubscribed_run, ← unsubscribes_eq, unsubscribes, decide_eq_true_iff, not_not] at stale
    have same : ((run calls).1.unsubscribe id).subscribed = (run calls).1.subscribed :=
      List.filter_sublist.eq_of_length stale
    rw [unsubscribe, show (run calls).1.subscribed.filter _ = _ from same]

/-- Observers `1` and `2` overlap; the handle of `1` is used twice, and `3` comes after that. -/
def overlapping : List (Call Nat Nat) :=
  [.subscribe 1, .emit [10], .subscribe 2, .emit [11, 12], .unsubscribe ⟨0⟩, .emit [13],
    .unsubscribe ⟨0⟩, .subscribe 3, .emit [14]]

theorem windows_run_overlapping :
    heard 1 (run overlapping).2 = [10, 11, 12] ∧ heard 2 (run overlapping).2 = [11, 12, 13, 14] ∧
    (run overlapping).1.unsubscribes ⟨0⟩ = false ∧
    (run overlapping).1.unsubscribes ⟨1⟩ = true := by
  obtain ⟨-, heard, -, -, -, -, unsubscribes, -⟩ := windows_run overlapping
  have distinct : ((subscriptions overlapping).map (·.observer)).Nodup := by decide
  have once (s) (hs : s ∈ subscriptions overlapping) (t) (ht : t ∈ subscriptions overlapping)
      (same : t.observer = s.observer) : t = s := List.inj_on_of_nodup_map distinct ht hs same
  have first : ⟨⟨0⟩, 1, overlapping.drop 1⟩ ∈ subscriptions overlapping := List.mem_cons_self ..
  have second : ⟨⟨1⟩, 2, overlapping.drop 3⟩ ∈ subscriptions overlapping :=
    List.mem_cons_of_mem _ (List.mem_cons_self ..)
  refine ⟨heard _ first (once _ first), heard _ second (once _ second), ?_, ?_⟩
  · exact Bool.eq_false_iff.2 (mt (unsubscribes ⟨0⟩).1 (by decide))
  · exact (unsubscribes ⟨1⟩).2 (by decide)

end PixelFlow.Observers
