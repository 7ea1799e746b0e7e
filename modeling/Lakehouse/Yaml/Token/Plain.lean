import Lakehouse.Yaml.Token.Fold

namespace Lakehouse.Yaml.Plain

-- Whether a plain scalar can begin here, once everything else has been ruled out.
def canStart (inFlow : Bool) : List Char → Bool
  | [] => false
  | c :: rest =>
    if c == '-' then !fits isBlank rest.head?
    else if c == '?' || c == ':' then !inFlow && !isSpaceOrEnd rest.head?
    else !isIndicator c && !isBlank c && !isBreak c

-- Whether a word ends before `c`.
def endsWord (inFlow : Bool) (c : Char) (next : Option Char) : Bool :=
  isBlank c || isBreak c || (c == ':' && isSpaceOrEnd next) || (inFlow && isFlowIndicator c)

-- The word at a place. Inside brackets a colon may not stand in front of another mark.
def word? (inFlow : Bool) : List Char → Option (List Char)
  | [] => some []
  | c :: rest =>
    if inFlow && c == ':' && fits (fun x => x == '?' || isFlowIndicator x) rest.head? then none
    else if endsWord inFlow c rest.head? then some []
    else (word? inFlow rest).map (c :: ·)

-- Whether a tab stands in the indentation of a further line.
def hasEarlyTab (least : Nat) (column : Option Nat) : List Char → Bool
  | [] => false
  | c :: rest =>
    if isBreak c then hasEarlyTab least (some 0) rest
    else match column with
      | some n => (c == '\t' && n < least) || hasEarlyTab least (some (n + 1)) rest
      | none => hasEarlyTab least none rest

-- Reads on: `out` is what has been read, `gap` stands between it and the next word. The result says
-- also whether the scalar ended behind a break.
def readFrom? (fuel : Nat) (inFlow : Bool) (least : Nat) (out : String) (gap : Gap) (c : Cursor) :
    Option (String × Bool × Cursor) := do
  match fuel with
  | 0 => none
  | fuel + 1 =>
    let atEnd := some (out, !gap.breaks.isEmpty, c)
    if c.atDocumentMark || c.head? == some '#' then atEnd
    else
      let word ← word? inFlow c.rest
      if word.isEmpty then atEnd
      else
        let out := out ++ String.ofList (gap.text ++ word)
        let (run, c) := (c.advance word.length).gap
        if hasEarlyTab least none run then none
        else
          let gap := Gap.ofRun run
          if run.isEmpty || (!inFlow && c.column < least) then some (out, !gap.breaks.isEmpty, c)
          else readFrom? fuel inFlow least out gap c

-- A plain scalar whose further lines begin at column `least` or behind it.
def read? (inFlow : Bool) (least : Nat) (c : Cursor) : Option (String × Bool × Cursor) :=
  readFrom? (c.rest.length + 1) inFlow least "" ⟨[], []⟩ c

end Lakehouse.Yaml.Plain
