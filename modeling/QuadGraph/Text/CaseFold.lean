import QuadGraph.Text.CharTable

/-!
Case folding of single characters. Two characters are the same but for case when they fold to the
same one.
-/
namespace QuadGraph.CaseFold

/-- Every step-th code point from first to last folds to the one that lies offset further on. -/
structure Run where
  first : Nat
  last : Nat
  step : Nat
  offset : Int

/-- Runs as four numbers each: the way from the last run to the first code point, the way to the
last one, the step, and the offset with its sign in the lowest bit. -/
def runsFrom (start : Nat) : List Nat → List Run
  | gap :: span :: step :: offset :: rest =>
    let run : Run :=
      { first := start + gap
        last := start + gap + span
        step
        offset := if offset % 2 = 0 then offset / 2 else -((offset + 1) / 2 : Nat) }
    run :: runsFrom run.last rest
  | _ => []

/-- All characters that fold to another one. -/
def runs : List Run := runsFrom 0 (CharTable.numbers
  "41 19 1 40 5b 0 1 60e b 16 1 40 2 6 1 40 22 2e 2 2 4 4 2 2 3 e 2 2 3 2c 2 2 2 0 1 f1 1 4 2 2
   2 0 1 217 2 0 1 1a4 1 2 2 2 2 0 1 19c 1 0 1 2 2 1 1 19a 1 0 1 2 3 0 1 9e 1 0 1 194 1 0 1 196
   1 0 1 2 2 0 1 19a 1 0 1 19e 2 0 1 1a6 1 0 1 1a2 1 0 1 2 4 0 1 1a6 1 0 1 1aa 2 0 1 1ac 1 4 2
   2 2 0 1 1b4 1 0 1 2 2 0 1 1b4 3 0 1 2 2 0 1 1b4 1 0 1 2 2 1 1 1b2 1 2 2 2 2 0 1 1b6 1 0 1 2
   4 0 1 2 8 0 1 4 1 0 1 2 2 0 1 4 1 0 1 2 2 0 1 4 1 10 2 2 3 10 2 2 3 0 1 4 1 2 2 2 2 0 1 c1 1
   0 1 6f 1 26 2 2 2 0 1 103 2 10 2 2 8 0 1 5456 1 0 1 2 2 0 1 145 1 0 1 5450 3 0 1 2 2 0 1 185
   1 0 1 8a 1 0 1 8e 1 8 2 2 f7 0 1 e8 2b 2 2 2 4 0 1 2 9 0 1 e8 7 0 1 4c 2 2 1 4a 2 0 1 80 2 1
   1 7e 2 10 1 40 2 8 1 40 17 0 1 2 d 0 1 10 1 0 1 3b 1 0 1 31 4 0 1 1d 1 0 1 2b 2 16 2 2 2 0 1
   6b 1 0 1 5f 3 0 1 77 1 0 1 7f 2 0 1 2 2 0 1 d 1 0 1 2 3 2 1 103 1 f 1 a0 1 1f 1 40 31 20 2 2
   a 34 2 2 2 0 1 1e 1 c 2 2 3 5e 2 2 3 25 1 60 b4a 25 1 38c0 2 0 1 38c0 6 0 1 38c0 32b 5 1 f
   883 0 1 309b 1 0 1 3099 1 0 1 3087 1 1 1 3083 1 0 1 3085 1 0 1 3077 1 0 1 3047 1 0 1 11386 8
   2a 1 177f 3 2 1 177f 141 94 2 2 7 0 1 73 3 0 1 3b7d 2 5e 2 2 a 7 1 f 9 5 1 f b 7 1 f 9 7 1 f
   9 5 1 f c 6 2 f 9 7 1 f 19 7 1 f 9 7 1 f 9 7 1 f 9 1 1 f 1 1 1 93 1 0 1 11 2 0 1 3809 a 3 1
   ab 1 0 1 11 c 1 1 f 1 1 1 c7 d 1 1 f 1 1 1 df 1 0 1 d c 1 1 ff 1 1 1 fb 1 0 1 11 12a 0 1
   3ab9 4 0 1 417d 1 0 1 408b 7 0 1 38 2e f 1 20 14 0 1 2 333 19 1 34 731 2f 1 60 31 0 1 2 2 0
   1 53ed 1 0 1 1dcb 1 0 1 53cd 3 4 2 2 2 0 1 5437 1 0 1 53f9 1 0 1 543d 1 0 1 543b 2 0 1 2 3 0
   1 2 9 1 1 547d 1 62 2 2 9 2 2 2 5 0 1 2 794e 2c 2 2 14 1a 2 2 88 c 2 2 4 3c 2 2 b 2 2 2 2 0
   1 11407 1 8 2 2 5 0 1 2 2 0 1 14a4f 3 2 2 2 4 12 2 2 2 0 1 14a87 1 0 1 14a9d 1 0 1 14a95 1 0
   1 14a81 1 0 1 14a87 2 0 1 14a23 1 0 1 14a53 1 0 1 14a29 1 0 1 740 1 e 2 2 2 0 1 5f 1 0 1
   14a85 1 0 1 1146f 1 2 2 2 7 0 1 2 6 2 2 2 1d 0 1 2 37b 4f 1 12f9f 5362 19 1 40 4c6 27 1 50
   89 23 1 50 9d a 1 4e 2 e 1 4e 2 6 1 4e 2 1 1 4e 6eb 32 1 80 bee 1f 1 40 5581 1f 1 40 7aa1 21
   1 44")

def Run.covers (run : Run) (code : Nat) : Bool :=
  run.first ≤ code && code ≤ run.last && (code - run.first) % run.step == 0

/-- The code point that a code point folds to. -/
def fold (code : Nat) : Nat :=
  match runs.find? (·.covers code) with
  | some run => (code + run.offset).toNat
  | none => code

/-- The code points that are the same as the given one but for case, itself included. -/
def variants (code : Nat) : List Nat :=
  let target := fold code
  target :: runs.filterMap fun run =>
    let source := ((target : Int) - run.offset).toNat
    if run.covers source then some source else none

end QuadGraph.CaseFold
