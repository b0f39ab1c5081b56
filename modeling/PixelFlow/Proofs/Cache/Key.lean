import PixelFlow.Builtin.Blur
import PixelFlow.Proofs.Fingerprint
import PixelFlow.Proofs.Graph.Change

/-!
# What a key depends on

The key of a compute is made from the parameters in their order and from the inputs in alphabetic
order. The inputs may have come in any order. The order of the parameters is part of the key, but it
is that of their definitions, however often and in whatever order they were set.

* `Value.Match.fingerprint_eq`, `inputsFingerprint_congr`: what matches is not told apart.
* `Node.Tuned`: the parameters have the names of the definitions, in their order.
* **`Graph.setAll_tuned`**: parameters that are set stay in order.
* **`CacheKey.exact`**: a key determines parameters and inputs, and it depends on nothing else.
-/

namespace PixelFlow

open Fingerprint

/-! ## Inputs in any order -/

theorem Value.Match.fingerprint_eq {v w : Value}
    (h : v.Match (fun i j => i.revision = j.revision) w) : v.fingerprint = w.fingerprint := by
  cases h with
  | image h => exact congrArg (fun u => word 0 ++ uuid u) h
  | number x => rfl
  | color c => rfl

theorem pairwise_sortedByName {α : Type} (l : List (String × α)) :
    ((sortedByName l).map Prod.fst).Pairwise (· ≤ ·) := by
  rw [List.pairwise_map]
  refine (List.pairwise_mergeSort (fun a b c hab hbc => ?_) (fun a b => ?_) l).imp of_decide_eq_true
  · exact decide_eq_true ((of_decide_eq_true hab).trans (of_decide_eq_true hbc))
  · simpa using le_total a.1 b.1

/-- Tables with the same names have them in the same alphabetic order. -/
theorem keys_sortedByName {α β : Type} {s : Table String α} {t : Table String β}
    (h : ∀ name, name ∈ s.keys ↔ name ∈ t.keys) :
    (sortedByName s.entries).map Prod.fst = (sortedByName t.entries).map Prod.fst := by
  have hs : ((sortedByName s.entries).map Prod.fst).Perm s.keys := (List.mergeSort_perm ..).map _
  have ht : ((sortedByName t.entries).map Prod.fst).Perm t.keys := (List.mergeSort_perm ..).map _
  have hp := (List.perm_ext_iff_of_nodup s.nodup_keys t.nodup_keys).2 h
  exact (hs.trans (hp.trans ht.symm)).eq_of_pairwise (fun _ _ _ _ => le_antisymm)
    (pairwise_sortedByName _) (pairwise_sortedByName _)

/-- **Inputs that match under each name have the same fingerprint**, whatever order they came in. -/
theorem inputsFingerprint_congr {s t : Table String Value} (h : ∀ name,
    Option.Rel (Value.Match fun i j => i.revision = j.revision) (s.get? name) (t.get? name)) :
    inputsFingerprint s = inputsFingerprint t := by
  have names : ∀ name, name ∈ s.keys ↔ name ∈ t.keys := fun name => by
    rw [Table.mem_iff_isSome, Table.mem_iff_isSome]
    have := h name
    generalize s.get? name = v, t.get? name = w at this
    cases this <;> exact Iff.rfl
  have rel := Table.forall₂_of_lookup_rel (keys_sortedByName names)
    (((List.mergeSort_perm ..).map _).nodup_iff.2 s.nodup) fun name => by
      rw [lookup_sortedByName, lookup_sortedByName]
      exact h name
  have length : ∀ t : Table String Value, t.size = (sortedByName t.entries).length := fun t =>
    (List.mergeSort_perm ..).length_eq.symm
  have parts : (sortedByName s.entries).map (fun e => text e.1 ++ e.2.fingerprint) =
      (sortedByName t.entries).map fun e => text e.1 ++ e.2.fingerprint := by
    rw [← List.forall₂_eq_eq_eq, List.forall₂_map_left_iff, List.forall₂_map_right_iff]
    exact rel.imp fun x y h => by rw [h.1, h.2.fingerprint_eq]
  rw [inputsFingerprint, inputsFingerprint, length, length, rel.length_eq, List.flatMap_def,
    List.flatMap_def, parts]

/-- **The bytes of two keys are the same exactly when the parameters are, in their order, and the
inputs match.** -/
theorem CacheKey.fingerprint_eq_iff {v w : String} {p q : Parameters} {s t : Table String Value} :
    (CacheKey.of v p s).fingerprint = (CacheKey.of w q t).fingerprint ↔ p = q ∧ ∀ name,
      Option.Rel (Value.Match fun i j => i.revision = j.revision) (s.get? name) (t.get? name) := by
  constructor
  · intro h
    obtain ⟨hp, hi⟩ := splits_parameters p q _ _ h
    exact ⟨hp, inputsFingerprint_inj hi⟩
  · rintro ⟨rfl, h⟩
    exact congrArg (p.fingerprint ++ ·) (inputsFingerprint_congr h)

theorem inputsFingerprint_perm {s t : Table String Value} (h : s.entries.Perm t.entries) :
    inputsFingerprint s = inputsFingerprint t := by
  refine inputsFingerprint_congr fun name => ?_
  have : s.get? name = t.get? name := Option.ext fun v => by
    rw [Table.get?_eq_some_iff, Table.get?_eq_some_iff, h.mem_iff]
  rw [this]
  cases t.get? name
  · exact .none
  · exact .some (.of_eq fun _ _ => rfl)

/-! ## Parameters that are set -/

/-- **The parameters have the names of the definitions, in their order.** -/
def Node.Tuned (n : Node) : Prop := n.parameters.keys = n.metadata.defaultParameters.keys

/-- A new node starts with all defaults. -/
theorem Node.tuned_new (v : Variant) (stamp : Nat) : (Node.new v stamp).Tuned := rfl

/-- What is declared has a default. -/
theorem NodeMetadata.mem_defaultParameters {m : NodeMetadata} {name : String}
    {d : ParameterDefinition} (h : m.parameter? name = some d) :
    name ∈ m.defaultParameters.keys := by
  have hd := List.mem_of_find?_eq_some h
  have hn : d.name = name := by simpa using List.find?_some h
  rw [defaultParameters, Table.mem_keys_ofList, List.map_map]
  exact List.mem_map.2 ⟨d, hd, hn⟩

namespace Graph

variable {g g' : Graph} {id i : NodeId} {n : Node} {ps : Parameters}

/-- What is set is declared. -/
theorem setParameters_declared (h : g.setParameters id ps = .ok g') (hn : g.node? id = some n) :
    ∀ e ∈ ps.entries, ∃ d, n.metadata.parameter? e.1 = some d := by
  intro e he
  have passed := setParameters_checked h hn e he
  rw [checkParameter] at passed
  split at passed
  · cases passed
  · next d hd => exact ⟨d, hd⟩

/-- **Parameters that are set stay in order.** -/
theorem setParameters_tuned (h : g.setParameters i ps = .ok g') (hn : g.node? id = some n)
    (ht : n.Tuned) : ∃ n', g'.node? id = some n' ∧ n'.variant = n.variant ∧ n'.Tuned := by
  obtain ⟨m, hm, rfl⟩ := setParameters_ok h
  rw [node?_modifyNode, hn]
  split
  · next e =>
    subst e
    refine ⟨_, rfl, rfl, Eq.trans ?_ ht⟩
    refine Table.keys_insertMany_of_mem fun x hx => ?_
    obtain ⟨d, hd⟩ := setParameters_declared h hn x hx
    exact ht ▸ NodeMetadata.mem_defaultParameters hd
  · exact ⟨n, rfl, rfl, ht⟩

/-- Set parameters of a node; what is refused changes nothing. -/
def trySet (g : Graph) (id : NodeId) (ps : Parameters) : Graph :=
  match g.setParameters id ps with
  | .ok g' => g'
  | .error _ => g

/-- Set parameters of nodes, one after the other. -/
def setAll (g : Graph) (updates : List (NodeId × Parameters)) : Graph :=
  updates.foldl (fun g (id, ps) => g.trySet id ps) g

theorem trySet_tuned (i : NodeId) (ps : Parameters) (hn : g.node? id = some n) (ht : n.Tuned) :
    ∃ n', (g.trySet i ps).node? id = some n' ∧ n'.variant = n.variant ∧ n'.Tuned := by
  rw [trySet]
  split
  · next h => exact setParameters_tuned h hn ht
  · exact ⟨n, hn, rfl, ht⟩

/-- **However often parameters are set, they stay in order.** -/
theorem setAll_tuned (updates : List (NodeId × Parameters)) (hn : g.node? id = some n)
    (ht : n.Tuned) :
    ∃ n', (g.setAll updates).node? id = some n' ∧ n'.variant = n.variant ∧ n'.Tuned := by
  induction updates generalizing g n with
  | nil => exact ⟨n, hn, rfl, ht⟩
  | cons u updates ih =>
    obtain ⟨n', hn', hv, ht'⟩ := trySet_tuned u.1 u.2 hn ht
    obtain ⟨n'', hn'', hv', ht''⟩ := ih hn' ht'
    exact ⟨n'', hn'', hv'.trans hv, ht''⟩

end Graph

/-! ## Keys -/

/-- **A key is made from parameters and inputs, and from nothing else.** Different parameters or
inputs have different bytes; the order in which the inputs came does not matter; and neither does
the way in which two nodes of a variant have come to the same values of parameters. -/
theorem CacheKey.exact :
    (∀ (v w : String) (p q : Parameters) (s t : Table String Value),
      (CacheKey.of v p s).fingerprint = (CacheKey.of w q t).fingerprint ↔ p = q ∧ ∀ name,
        Option.Rel (Value.Match fun i j => i.revision = j.revision) (s.get? name) (t.get? name)) ∧
    (∀ (v : String) (p : Parameters) (s t : Table String Value), s.entries.Perm t.entries →
      (CacheKey.of v p s).fingerprint = (CacheKey.of v p t).fingerprint) ∧
    ∀ (g h : Graph) (i j : NodeId) (n m : Node) (us ws : List (NodeId × Parameters)),
      g.node? i = some n → h.node? j = some m → n.variant = m.variant → n.Tuned → m.Tuned →
        ∃ n' m', (g.setAll us).node? i = some n' ∧ (h.setAll ws).node? j = some m' ∧
          ((∀ name, n'.parameters.get? name = m'.parameters.get? name) ↔ ∀ v s,
            (CacheKey.of v n'.parameters s).fingerprint =
              (CacheKey.of v m'.parameters s).fingerprint) := by
  refine ⟨fun v w p q s t => fingerprint_eq_iff, fun v p s t h => ?_,
    fun g h i j n m us ws hn hm hv tn tm => ?_⟩
  · exact congrArg (p.fingerprint ++ ·) (inputsFingerprint_perm h)
  · obtain ⟨n', hn', vn, tn'⟩ := Graph.setAll_tuned us hn tn
    obtain ⟨m', hm', vm, tm'⟩ := Graph.setAll_tuned ws hm tm
    refine ⟨n', m', hn', hm', fun same v s => ?_, fun same => ?_⟩
    · have keys : n'.parameters.keys = m'.parameters.keys := by
        rw [tn', tm', Node.metadata, Node.metadata, vn, vm, hv]
      rw [Table.ext_get? keys same]
    · rw [(fingerprint_eq_iff.1 (same "" ∅)).1]
      exact fun _ => rfl

/-- Two nodes that blur, as they come. -/
def twoBlurs : Graph := (Graph.empty.insert (.new Builtin.blur 0)).insert (.new Builtin.blur 1)

/-- The last parameter is set before the first, and at the other node only after one that is
refused and one that is replaced. -/
theorem CacheKey.exact_twoBlurs :
    let sigma : String × ParamValue := ("sigma", .integer 5)
    let method name : String × ParamValue := ("method", .text name)
    let first := [(⟨.mint 0 0⟩, .ofList [sigma]), (⟨.mint 0 0⟩, .ofList [method "gaussian"])]
    let second := [(⟨.mint 1 0⟩, .ofList [method "median"]),
      (⟨.mint 1 0⟩, .ofList [("radius", .integer 5)]),
      (⟨.mint 1 0⟩, .ofList [method "gaussian", sigma])]
    ∃ n m, (twoBlurs.setAll first).node? ⟨.mint 0 0⟩ = some n ∧
      (twoBlurs.setAll second).node? ⟨.mint 1 0⟩ = some m ∧
        ∀ v s, (CacheKey.of v n.parameters s).fingerprint =
          (CacheKey.of v m.parameters s).fingerprint := by
  intro sigma method first second
  obtain ⟨n, m, hn, hm, same⟩ := CacheKey.exact.2.2 twoBlurs twoBlurs ⟨.mint 0 0⟩ ⟨.mint 1 0⟩ _ _
    first second rfl rfl rfl (Node.tuned_new Builtin.blur 0) (Node.tuned_new Builtin.blur 1)
  have parameters : ((twoBlurs.setAll first).node? ⟨.mint 0 0⟩).map (·.parameters) =
    ((twoBlurs.setAll second).node? ⟨.mint 1 0⟩).map (·.parameters) := by decide
  rw [hn, hm] at parameters
  have parameters : n.parameters = m.parameters := Option.some.inj parameters
  exact ⟨n, m, hn, hm, same.1 fun name => by rw [parameters]⟩

end PixelFlow
