import SchemaGraph.Proofs.Compile.Denotation

/-! # Sequences of calls

A document is built by calls that compile into one registry, each of which may fail. A call
either adds what the denotation of its reference needs, or leaves the registry as it was
(`call_cases`). -/

namespace SchemaGraph

/-- A call that compiles into a registry. -/
inductive Call where
  | reference (r : Reference)
  | tokens (tokens : List String)

/-- The answer of a call: the node, or none where there were no tokens. -/
abbrev Answer := Except Error (Option Schema)

/-- The reference that a call compiles. -/
def Call.Compiles : Call → Reference → Prop
  | .reference r, q => r = q
  | .tokens ts, q => Reference.decode ts = .ok (some q)

namespace Catalog

/-- Makes a call. -/
def call (c : Catalog) : Call → Registry → Answer × Registry
  | .reference r, g => ((c.compile r g).1.map some, (c.compile r g).2)
  | .tokens tokens, g => c.compileTokens tokens g

/-- Makes calls one after another, whatever becomes of each. -/
def calls (c : Catalog) : List Call → Registry → List Answer × Registry
  | [], g => ([], g)
  | k :: ks, g =>
    let (answer, g) := c.call k g
    let (answers, g) := c.calls ks g
    (answer :: answers, g)

/-- The nodes among the answers. -/
def nodesOf (answers : List Answer) : List Schema :=
  answers.filterMap fun
    | .ok node => node
    | .error _ => none

variable {c : Catalog} {P : Reference → Prop} {k : Call} {ks : List Call} {g : Registry}

@[simp] theorem nodesOf_ok (s : Schema) (answers : List Answer) :
    nodesOf (.ok (some s) :: answers) = s :: nodesOf answers := rfl

theorem nodesOf_cons {a : Answer} (ha : ∀ s, a ≠ .ok (some s)) (answers : List Answer) :
    nodesOf (a :: answers) = nodesOf answers := by
  rcases a with e | _ | s
  · rfl
  · rfl
  · exact absurd rfl (ha s)

/-- A call returns a node and compiles its reference, or leaves the registry as it was. -/
theorem call_cases (c : Catalog) (k : Call) (g : Registry) :
    (∃ r s, k.Compiles r ∧ (c.call k g).1 = .ok (some s) ∧
      c.compile r g = (.ok s, (c.call k g).2)) ∨
    (∀ s, (c.call k g).1 ≠ .ok (some s)) ∧ (c.call k g).2 = g := by
  cases k with
  | reference r =>
    rcases h : c.compile r g with ⟨e | s, g'⟩
    · exact .inr (by simp [call, h, Except.map, compile_error h])
    · exact .inl ⟨r, s, rfl, by simp [call, h, Except.map], by simp [call, h]⟩
  | tokens tokens =>
    rcases h : c.compileTokens tokens g with ⟨e | node, g'⟩
    · exact .inr (by simp [call, h, compileTokens_error h])
    · rcases compileTokens_eq_ok.mp h with ⟨-, rfl, rfl⟩ | ⟨r, s, hd, hr, rfl⟩
      · exact .inr (by simp [call, h])
      · exact .inl ⟨r, s, hd, by simp [call, h], by simp [call, h, hr]⟩

/-- What holds of a registry and the nodes returned so far, and is kept by every call, holds
after any sequence of calls. -/
theorem calls_induction (Inv : Registry → List Schema → Prop)
    (hnode : ∀ {k r s g g' nodes}, k ∈ ks → k.Compiles r → c.compile r g = (.ok s, g') →
      Inv g nodes → Inv g' (nodes ++ [s]))
    {nodes : List Schema} (h : Inv g nodes) :
    Inv (c.calls ks g).2 (nodes ++ nodesOf (c.calls ks g).1) := by
  induction ks generalizing g nodes with
  | nil => simpa [calls, nodesOf] using h
  | cons k ks ih =>
    have hks : ∀ {k' r s g g' nodes}, k' ∈ ks → k'.Compiles r → c.compile r g = (.ok s, g') →
        Inv g nodes → Inv g' (nodes ++ [s]) :=
      fun hk => hnode (List.mem_cons_of_mem _ hk)
    simp only [calls]
    rcases c.call_cases k g with ⟨r, s, hr, hs, hc⟩ | ⟨hs, hg⟩
    · rw [hs, nodesOf_ok, ← List.singleton_append, ← List.append_assoc]
      exact ih hks (hnode List.mem_cons_self hr hc h)
    · rw [nodesOf_cons hs, hg]
      exact ih hks h

end Catalog
end SchemaGraph
