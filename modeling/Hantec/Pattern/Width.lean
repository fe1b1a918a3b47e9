import Hantec.Pattern

/-!
# Widths

The least and the greatest number of characters that a pattern matches, and the check that
what is looked for behind a place has one width.
-/

namespace Hantec.Pattern

/-- Greater widths count as this one. -/
def widthLimit : Nat := Nat.pow 2 64

/-- A number of repeats that stands for any number. -/
def repeatLimit : Nat := 4294967295

mutual

/-- The widths of a part, where `groups` holds those of the groups. -/
def width (groups : List (Option (Nat × Nat))) : Node → Nat × Nat
  | .literal _ | .any | .set _ _ => (1, 1)
  | .anchor _ | .look _ _ _ => (0, 0)
  | .group _ _ _ body | .atomic body => widthSeq groups body
  | .branch alts => widthAlts groups alts
  | .iter _ lo hi body =>
    let (i, j) := widthSeq groups body
    match hi with
    | some n => (i * lo, j * n)
    | none => (i * lo, if j = 0 then 0 else widthLimit)
  | .reference id => ((groups.getD id none).getD (0, 0))
  | .condition _ yes no =>
    let (i, j) := widthSeq groups yes
    match no with
    | none => (0, j)
    | some no =>
      let (l, h) := widthSeq groups no
      (min i l, max j h)

def widthSeq (groups : List (Option (Nat × Nat))) : List Node → Nat × Nat
  | [] => (0, 0)
  | n :: ns =>
    let (i, j) := width groups n
    let (l, h) := widthSeq groups ns
    (min (i + l) widthLimit, min (j + h) widthLimit)

def widthAlts (groups : List (Option (Nat × Nat))) : List (List Node) → Nat × Nat
  | [] => (widthLimit, 0)
  | a :: as =>
    let (i, j) := widthSeq groups a
    let (l, h) := widthAlts groups as
    (min i l, max j h)

end

mutual

/-- Fills in how far a pattern looks behind, and refuses what cannot be matched. -/
def settle (groups : List (Option (Nat × Nat))) (flags : Flags) : Node → Except Cause Node
  | .look (some _) negated body => do
    let (lo, hi) := widthSeq groups body
    if repeatLimit < lo then throw .lookbehindDepth
    if lo != hi then throw .lookbehindWidth
    return .look (some lo) negated (← settleSeq groups flags body)
  | .look none negated body => return .look none negated (← settleSeq groups flags body)
  | .group id add del body =>
    return .group id add del (← settleSeq groups (flags.within add del) body)
  | .branch alts => return .branch (← settleAlts groups flags alts)
  | .iter kind lo hi body => do
    if flags.template then throw (.templateRepeat kind)
    return .iter kind lo hi (← settleSeq groups flags body)
  | .condition id yes no => do
    let yes ← settleSeq groups flags yes
    match no with
    | none => return .condition id yes none
    | some no => return .condition id yes (some (← settleSeq groups flags no))
  | .atomic body => return .atomic (← settleSeq groups flags body)
  | n => return n

def settleSeq (groups : List (Option (Nat × Nat))) (flags : Flags) :
    List Node → Except Cause (List Node)
  | [] => return []
  | n :: ns => return (← settle groups flags n) :: (← settleSeq groups flags ns)

def settleAlts (groups : List (Option (Nat × Nat))) (flags : Flags) :
    List (List Node) → Except Cause (List (List Node))
  | [] => return []
  | a :: as => return (← settleSeq groups flags a) :: (← settleAlts groups flags as)

end

end Hantec.Pattern
