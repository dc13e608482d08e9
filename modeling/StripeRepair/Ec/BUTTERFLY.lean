import StripeRepair.Ec.FailureSet
import StripeRepair.Ec.ECDAG
import Mathlib.Logic.Function.Basic

/-!
# `BUTTERFLY`: Encode and Decode

The code has `k + 2` nodes of `w = 2 ^ (k - 1)` packets. Node `k` holds the sums of the rows
of the data, node `k + 1` the sums that `butterfly_func` names. `Decode` repairs one node and
has a construction of its own for each kind of node.
-/

namespace StripeRepair

namespace BUTTERFLY

/-- A matrix of packets; a row may also be a list of packets to be added. -/
abbrev Mat := List (List Nat)

section
variable {α : Type} [Inhabited α]

-- the entries are numbers that are only moved, so they may be anything
def entry (mat : List (List α)) (i j : Nat) : α := (mat.getD i []).getD j default

def permMat (mat : List (List α)) : List (List α) := mat.reverse

def addMat (mat1 mat2 : List (List α)) : List (List α) :=
  (List.range mat1.length).map fun i => mat1.getD i [] ++ mat2.getD i []

/-- The matrices `a`, `b`, `A_mat` and `B_mat`: a range of rows and a range of columns. -/
def part (mat : List (List α)) (row rows col cols : Nat) : List (List α) :=
  (List.range' row rows).map fun i => (List.range' col cols).map fun j => entry mat i j

/-- The code calls it with as many columns as the rows can be halved, and one more. -/
def butterflyFunc : List (List α) → Nat → Nat → List (List α)
  | _, _, 0 => []
  | mat, mRow, mCol + 1 =>
    if mRow = 1 ∧ mCol + 1 = 1 then [[entry mat 0 0]]
    else if mRow = 2 ∧ mCol + 1 = 2 then
      [[entry mat 1 0, entry mat 0 1], [entry mat 0 0, entry mat 0 1, entry mat 1 1]]
    else
      let halfRow := mRow / 2
      let a := part mat 0 halfRow 0 1
      let b := part mat halfRow (mRow - halfRow) 0 1
      let A := part mat 0 halfRow 1 mCol
      let B := part mat halfRow (mRow - halfRow) 1 mCol
      let top := addMat (permMat b) (butterflyFunc A halfRow mCol)
      let lower := permMat (addMat (addMat a A) (butterflyFunc (permMat B) halfRow mCol))
      top ++ lower

end

section
variable (n k w : Nat)

/-- `init_mat`: packet `i` of node `j` in row `i` and column `j`. -/
def initMat : Mat :=
  (List.range w).map fun i => (List.range n).map fun j => j * w + i

/-! ## Encode -/

/-- `_enc_matrix`: the data, then the rows, then the butterfly. -/
def encMatrix (i j : Nat) : Int :=
  if i < k * w then if i = j then 1 else 0
  else if i < k * w + w then
    if i % w = i - k * w ∧ ∃ b < k, j = w * b + (i - k * w) then 1 else 0
  else if j ∈ (butterflyFunc (initMat k w) w k).getD (i - (k + 1) * w) [] then 1 else 0

def encodeJoins : List Join :=
  let data := packets w (List.range k)
  let code := packets w (List.range' k (n - k))
  (List.range ((n - k) * w)).map fun i =>
    ⟨code.getD i 0, data, (List.range (k * w)).map fun j => encMatrix k w (k * w + i) j⟩

def encode : ECDAG := .build (encodeJoins n k w)

/-! ## The rows a lost packet is made of -/

/-- `dec_map` -/
abbrev DecMap := Nat → Option (List Nat)

/-- `dec_map.insert({i, l})`: nothing when the key is there. -/
def DecMap.insertNew (m : DecMap) (i : Nat) (l : List Nat) : DecMap :=
  if m i = none then Function.update m i (some l) else m

/-- The rows `off` of the columns that are read, without column `r`. -/
def repairMat (r : Nat) (off : List Nat) : Mat :=
  off.map fun o => ((List.range k).filter (· ≠ r)).map fun j => entry (initMat n w) o j

/-- `H` and `B`: the rows `off` of one column. -/
def column (j : Nat) (off : List Nat) : Mat := off.map fun o => [entry (initMat n w) o j]

/-- One key of `dec_map` for each row that is in `off`; the second component is `h_pointer`. -/
def knownRows (off : List Nat) (h : Mat) : DecMap :=
  ((List.range w).foldl (fun st i =>
    if i ∈ off then (DecMap.insertNew st.1 i (h.getD st.2 []), st.2 + 1) else st)
    ((fun _ => none : DecMap), 0)).1

/-- A packet that is there already cancels. -/
def toggle (l : List Nat) (x : Nat) : List Nat :=
  if x ∉ l then l ++ [x] else l.filter (· ≠ x)

/-- One row of the butterfly gives one lost packet. Situations 1 and 2 differ in what counts
as lost: a row that is not in `off`, or a row that is in `off1`. -/
def rebuildStep (r : Nat) (encVec : Mat) (off : List Nat) (isLost : Nat → Bool) (b : Mat)
    (m : DecMap) (i : Nat) : DecMap :=
  let mine := ((encVec.getD (off.getD i 0) []).filter fun x => x / w = r).map (· % w)
  let lostIndex := (mine.filter isLost).getLastD 0
  let dependIndex := mine.filter fun x => !isLost x
  let bIndex := dependIndex.foldl (fun b d => ((m d).getD []).foldl toggle b) (b.getD i [])
  DecMap.insertNew m lostIndex bIndex

/-- `dec_mat` in situation 1. -/
def decMat1 (r : Nat) (off : List Nat) : Mat :=
  let encVec := butterflyFunc (initMat n w) w k
  let h := addMat (repairMat n k w r off) (column n w k off)
  let b := addMat (butterflyFunc (repairMat n k w r off) (w / 2) (k - 1)) (column n w (k + 1) off)
  let decMap := (List.range off.length).foldl
    (rebuildStep w r encVec off (fun x => x ∉ off) b) (knownRows w off h)
  (List.range w).map fun i => (decMap i).getD []

/-- `dec_mat` in situation 2. -/
def decMat2 (r : Nat) (off1 off2 : List Nat) : Mat :=
  let encVec := butterflyFunc (initMat n w) w k
  let h := addMat (repairMat n k w r off2) (column n w k off2)
  let b := addMat (butterflyFunc (repairMat n k w r off2) (w / 2) (k - 1)) (column n w (k + 1) off1)
  let decMap := (List.range off1.length).foldl
    (rebuildStep w r encVec off1 (fun x => x ∈ off1) b) (knownRows w off2 h)
  (List.range w).map fun i => (decMap i).getD []

/-- One row of the butterfly in situation 3: the packets of the upper half are one row. -/
def rebuildTop (encVec B : Mat) (off : List Nat) (m : DecMap) (i : Nat) : DecMap :=
  let row := encVec.getD (off.getD i 0) []
  let lostIndex := ((row.filter fun x => x % w < w / 2).map (· % w)).getLastD 0
  DecMap.insertNew m lostIndex (row.filter (fun x => ¬ x % w < w / 2) ++ [entry B i 0])

/-- `dec_mat` in situation 3. -/
def decMat3 (off : List Nat) : Mat :=
  let encVec := butterflyFunc (initMat n w) w k
  let repairMat := off.map fun o => (List.range k).map fun j => entry (initMat n w) o j
  let decMap := (List.range off.length).foldl (rebuildTop w encVec (column n w (k + 1) off) off)
    (knownRows w off repairMat)
  (List.range w).map fun i => (decMap i).getD []

/-- `parity_dec`: of a row of `parity_all` the entries of the packets that are read. -/
def parityDec (decMat : Mat) (reads : Nat → Bool) : List (List Int) :=
  (List.range w).map fun i => ((List.range (w * n)).filter reads).map fun j =>
    if j ∈ decMat.getD i [] then 1 else 0

/-! ## Decode -/

/-- A `Join` of the packets with a coefficient that is not 0. -/
def joinRow (dst : Nat) (data : List Nat) (coef : List Int) : Join :=
  let picked := (data.zip coef).filter fun e => e.2 ≠ 0
  ⟨dst, picked.map Prod.fst, picked.map Prod.snd⟩

/-- The loop over `to`. -/
def joinRows (dst data : List Nat) (matrix : List (List Int)) : List Join :=
  dst.zipIdx.map fun e => joinRow e.1 data
    ((List.range ((n - 1) * w / 2)).map fun j => (matrix.getD e.2 []).getD j 0)

/-- `off` in situation 1. The division is by a power of two and of `int`s that a `float`
holds exactly for the sizes `_enc_matrix` has room for. -/
def sameRows (r : Nat) : List Nat :=
  (List.range w).filter fun i =>
    let rowSelect := i / 2 ^ (k - r - 2)
    rowSelect % 4 = 0 ∨ rowSelect % 4 = 3

/-- The packets in the rows `off` of each node but `r`. -/
def dataOf (r : Nat) (off : Nat → List Nat) : List Nat :=
  ((List.range n).filter (· ≠ r)).flatMap fun i => (off i).map fun o => i * w + o

def situation1 (r : Nat) (dst : List Nat) : List Join :=
  let off := sameRows k w r
  joinRows n w dst (dataOf n w r fun _ => off)
    (parityDec n w (decMat1 n k w r off) fun j => j / w ≠ r ∧ j % w ∈ off)

def situation2 (r : Nat) (dst : List Nat) : List Join :=
  let off1 := (List.range w).filter (· % 2 = 1)
  let off2 := (List.range w).filter (¬ · % 2 = 1)
  joinRows n w dst (dataOf n w r fun i => if i = n - 1 then off1 else off2)
    (parityDec n w (decMat2 n k w r off1 off2) fun j =>
      (j / w ≠ r ∧ j / w ≠ n - 1 ∧ j % w ∈ off2) ∨ (j / w = n - 1 ∧ j % w ∈ off1))

def situation3 (r : Nat) (dst : List Nat) : List Join :=
  let off := List.range' (w / 2) (w - w / 2)
  joinRows n w dst (dataOf n w r fun _ => off)
    (parityDec n w (decMat3 n k w off) fun j => j / w ≠ r ∧ j % w ∈ off)

/-- `generate_xor_data_matrix`: what the lower half takes of node `sid`, from below. -/
def xorMat (sid : Nat) : List (List Int) :=
  let encVec := butterflyFunc (initMat n w) w k
  (List.range (w / 2)).map fun i =>
    let xorVec := ((encVec.getD (w - 1 - i) []).filter fun x => x / w = sid).map (· % w)
    (List.range w).map fun j => if j ∈ xorVec then 1 else 0

/-- The sums of each data node but the first, under temporary ids. The last loop has
coefficients of its own, which stay empty: the matrix of situation 4 is not read. -/
def situation4 (dst : List Nat) : List Join :=
  ((List.range' 1 (k - 1)).flatMap fun sid => (List.range (w / 2)).map fun i =>
    joinRow (n * w + (sid - 1) * (w / 2) + i) ((List.range w).map fun j => sid * w + j)
      ((List.range w).map fun j => ((xorMat n k w sid).getD i []).getD j 0)) ++
  dst.map fun d => joinRow d [] []

def decodeJoins (dst : List Nat) : List Join :=
  let r := dst.getD 0 0 / w
  if r + 1 < k then situation1 n k w r dst
  else if r = k then situation3 n k w r dst
  else if r + 1 = k then situation2 n k w r dst
  else if r = k + 1 then situation4 n k w dst
  else []

/-- `Decode(from, to)`; `from` is not read. -/
def decode (_src dst : List Nat) : ECDAG := .build (decodeJoins n k w dst)

end

end BUTTERFLY

end StripeRepair
