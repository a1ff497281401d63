import SchemaGraph.Reference

/-! # Decoding token lists

A token list spells a reference in pre-order: each token is followed by the tokens of its
arguments, as many as its arity says. -/

namespace SchemaGraph
namespace Reference

/-- Reads `n` references off the front of a list. What is still unread is returned in either
case; a failing token counts as read. `size` is the length of the whole list, for the report
that it ends too early.

A token of arity `k` claims the first `k` of the references that follow it, so they are read
together with those due after it. -/
def readMany (size : Nat) :
    List String → Nat → Except DecodeError (List Reference) × List String
  | unread, 0 => (.ok [], unread)
  | [], _ + 1 => (.error (.tokenExpected size), [])
  | text :: unread, n + 1 =>
    match Token.parse text with
    | .error e => (.error e, unread)
    | .ok token =>
      if token.isArray then
        if token.isGeneric then (.error (.genericArray text), unread)
        else
          match readMany size unread n with
          | (.ok rs, rest) => (.ok (arrays (leaf token.name) token.rank :: rs), rest)
          | (.error e, rest) => (.error e, rest)
      else
        match readMany size unread (token.arity + n) with
        | (.ok rs, rest) =>
          (.ok (.named token.name (rs.take token.arity) :: rs.drop token.arity), rest)
        | (.error e, rest) => (.error e, rest)

def read (size : Nat) (unread : List String) : Except DecodeError Reference × List String :=
  match readMany size unread 1 with
  | (.ok (r :: _), rest) => (.ok r, rest)
  | (.ok [], rest) => (.error (.tokenExpected size), rest)
  | (.error e, rest) => (.error e, rest)

/-- The reference that a token list spells. No tokens mean no reference. -/
def decode (tokens : List String) : Except DecodeError (Option Reference) :=
  match tokens with
  | [] => .ok none
  | _ :: _ =>
    match read tokens.length tokens with
    | (.error e, _) => .error e
    | (.ok r, []) => .ok (some r)
    | (.ok r, rest@(_ :: _)) =>
      .error (.leftover r.display (tokens.length - rest.length) rest)

end Reference

/-! ## Cursors -/

/-- A place in a token list from which references are read one after another. -/
structure Cursor where
  position : Nat
  unread : List String
deriving Repr, DecidableEq, Inhabited

namespace Cursor

def ofList (tokens : List String) : Cursor := ⟨0, tokens⟩

def remaining (c : Cursor) : Nat := c.unread.length

/-- Reads the next reference. The cursor moves behind the last token looked at, also when
reading fails. -/
def read (c : Cursor) : Except DecodeError Reference × Cursor :=
  match Reference.read (c.position + c.remaining) c.unread with
  | (r, rest) => (r, ⟨c.position + (c.remaining - rest.length), rest⟩)

end Cursor
end SchemaGraph
