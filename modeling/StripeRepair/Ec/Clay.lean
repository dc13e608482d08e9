import StripeRepair.Ec.ECDAG
import StripeRepair.Ec.GenerateMatrix
import Mathlib

/-!
# `Clay`: Encode and Decode

The nodes of the code and `nu` virtual nodes of zeros stand in a grid of `t` columns of `q`
nodes, node `y * q + x` at `(x, y)`. A node has `w = q ^ t` packets, one for each plane; the
vector of plane `z` names a node of each column. A coupled packet that its plane does not name
is paired with another one, and each pair has two uncoupled packets. In a plane the uncoupled
packets are a codeword of the Reed-Solomon code.

The ids in a computation are short ids, with the virtual nodes after the data nodes; the ids
in the DAG are real ids, with the virtual nodes last. The uncoupled packet of id `idx` is
`idx + (n + nu) * w`.
-/

namespace StripeRepair

open Matrix

/-- What the constructor is given; `d` is `param[0]`. -/
structure Clay where
  n : Nat
  k : Nat
  d : Nat
  deriving DecidableEq, Repr

namespace Clay

/-! ## The constructor -/

/-- The loop of `pow_int`, which halves `x` in each round. -/
def powLoop : Nat → Nat → Nat → Nat → Nat
  | 0, power, _, _ => power
  | fuel + 1, power, a, x =>
    if x = 0 then power
    else powLoop fuel (if x % 2 = 1 then power * a else power) (a * a) (x / 2)

def powInt (a x : Nat) : Nat := powLoop x 1 a x

section
variable (c : Clay)

def m : Nat := c.n - c.k

def q : Nat := c.d + 1 - c.k

/-- The number of virtual nodes. -/
def nu : Nat := if (c.k + c.m) % c.q ≠ 0 then c.q - (c.k + c.m) % c.q else 0

def mdsK : Nat := c.k + c.nu

def mdsM : Nat := c.m

def t : Nat := (c.k + c.m + c.nu) / c.q

def subChunkNo : Nat := powInt c.q c.t

/-- `_w`: whatever the constructor is given, it is the number of planes. -/
def w : Nat := c.subChunkNo

/-- `z_vec`, filled from its end. -/
def planeVector (q : Nat) : Nat → Nat → List Nat
  | 0, _ => []
  | t + 1, z => planeVector q t ((z - z % q) / q) ++ [z % q]

def getPlaneVector (z : Nat) : List Nat := planeVector c.q c.t z

/-- `z_vec[y]` -/
def zVec (z y : Nat) : Nat := (c.getPlaneVector z).getD y 0

/-- The id of the uncoupled packet. -/
def uncoupled (idx : Nat) : Nat := idx + (c.n + c.nu) * c.w

/-- `_short2real[short] = real` and `_real2short[real] = short` for the packets of one node,
coupled and uncoupled. -/
def shortOfNode (short real : Nat) : List (Nat × Nat) :=
  (List.range c.w).flatMap fun j =>
    [(short * c.w + j, real * c.w + j),
      (c.uncoupled (short * c.w + j), c.uncoupled (real * c.w + j))]

/-- The assignments to the two maps in the constructor. -/
def shortPairs : List (Nat × Nat) :=
  ((List.range c.k).flatMap fun i => c.shortOfNode i i) ++
  ((List.range c.nu).flatMap fun i => c.shortOfNode (c.k + i) (c.n + i)) ++
  ((List.range (c.n - c.k)).flatMap fun i => c.shortOfNode (c.k + c.nu + i) (c.k + i))

def short2real (idx : Nat) : Option Nat := c.shortPairs.reverse.lookup idx

def real2short (idx : Nat) : Option Nat := (c.shortPairs.map Prod.swap).reverse.lookup idx

def getRealFromShort (idx : Nat) : Nat := (c.short2real idx).getD idx

def getShortFromReal (idx : Nat) : Nat := (c.real2short idx).getD idx

/-- The pairs inserted into `_identical`: an uncoupled packet without a partner is the coupled
packet. -/
def identicalPairs : List (Nat × Nat) :=
  (List.range c.t).flatMap fun y => (List.range c.q).flatMap fun x =>
    (List.range c.w).flatMap fun z =>
      let idx := (y * c.q + x) * c.w + z
      if c.zVec z y = x then [(c.uncoupled idx, idx)] else []

/-- `if (_identical.find(idx) != _identical.end()) idx = _identical[idx]` -/
def identical (idx : Nat) : Nat := (c.identicalPairs.lookup idx).getD idx

/-! ## A pair of packets

The coupled packets are 0 and 1, the uncoupled packets 2 and 3; 0 and 2 belong to the node
with the larger `x`. -/

/-- `_pft_encode_matrix` -/
def pftEncodeMatrix (i j : Nat) : GF256 := entry (generateMatrix 4 2) i j

/-- `z_sw`: the plane of the partner. -/
def zSw (x y z : Nat) : Nat :=
  z + x * powInt c.q (c.t - 1 - y) - c.zVec z y * powInt c.q (c.t - 1 - y)

/-- `idx0` to `idx3`. -/
def idxs (idx0 idx1 : Nat) : Nat → Nat
  | 0 => idx0
  | 1 => idx1
  | 2 => c.uncoupled idx0
  | _ => c.uncoupled idx1

/-- The ids when `(x, y)` is 0 and 2. -/
def idxsUpper (x y z : Nat) : Nat → Nat :=
  c.idxs ((y * c.q + x) * c.w + z) ((y * c.q + c.zVec z y) * c.w + c.zSw x y z)

/-- The ids when `(x, y)` is 1 and 3. -/
def idxsLower (x y z : Nat) : Nat → Nat :=
  c.idxs ((y * c.q + c.zVec z y) * c.w + c.zSw x y z) ((y * c.q + x) * c.w + z)

/-- `ecdag->Join` with the real ids of two packets of a pair. -/
def pairJoin (idx : Nat → Nat) (a b target : Nat) (coef : List Int) : Join :=
  ⟨c.getRealFromShort (idx target),
    [c.getRealFromShort (idx a), c.getRealFromShort (idx b)], coef⟩

/-- The coefficients of an uncoupled packet of the coupled ones. -/
def coefUncoupled (target : Nat) : List Int :=
  (List.range 2).map fun i => GF256.toInt (pftEncodeMatrix target i)

/-- `_invert_matrix` of two rows. -/
def pftInvert (invert : InvertMatrix8) (a b : Nat) : Matrix (Fin 2) (Fin 2) GF256 :=
  invert 2 (of fun i j => pftEncodeMatrix ([a, b].getD i 0) j)

/-- `_coef_vector`: row `target` times the inverse of the rows `a` and `b`. -/
def coefPair (invert : InvertMatrix8) (a b target : Nat) : List Int :=
  (List.finRange 2).map fun j : Fin 2 =>
    GF256.toInt (∑ l : Fin 2, pftEncodeMatrix target l * pftInvert invert a b l j)

/-- The coefficients of a coupled packet of the uncoupled ones, a row of the inverse. -/
def coefCoupled (invert : InvertMatrix8) (target : Fin 2) : List Int :=
  (List.finRange 2).map fun j : Fin 2 => GF256.toInt (pftInvert invert 2 3 target j)

section
variable (invert : InvertMatrix8) (x y z : Nat)

def getUncoupledFromCoupled : List Join :=
  [c.pairJoin (c.idxsUpper x y z) 0 1 2 (coefUncoupled 2),
    c.pairJoin (c.idxsUpper x y z) 0 1 3 (coefUncoupled 3)]

def getUncoupled2FromCoupled : List Join :=
  [c.pairJoin (c.idxsUpper x y z) 0 1 2 (coefUncoupled 2)]

def getUncoupled3FromCoupled : List Join :=
  [c.pairJoin (c.idxsLower x y z) 0 1 3 (coefUncoupled 3)]

def getUncoupled3FromCoupled02 : List Join :=
  [c.pairJoin (c.idxsLower x y z) 1 2 3 (coefPair invert 1 2 3)]

def getUncoupled3FromCoupled12 : List Join :=
  [c.pairJoin (c.idxsLower x y z) 1 2 3 (coefPair invert 1 2 3)]

def getUncoupled2FromCoupled03 : List Join :=
  [c.pairJoin (c.idxsUpper x y z) 0 3 2 (coefPair invert 0 3 2)]

def getCoupledFromUncoupled : List Join :=
  [c.pairJoin (c.idxsUpper x y z) 2 3 0 (coefCoupled invert 0),
    c.pairJoin (c.idxsUpper x y z) 2 3 1 (coefCoupled invert 1)]

def getCoupled10FromUncoupled : List Join :=
  [c.pairJoin (c.idxsLower x y z) 2 3 0 (coefCoupled invert 0),
    c.pairJoin (c.idxsLower x y z) 2 3 1 (coefCoupled invert 1)]

def getCoupled1FromPair02 : List Join :=
  [c.pairJoin (c.idxsUpper x y z) 0 2 1 (coefPair invert 0 2 1)]

def getCoupled0FromPair12 : List Join :=
  [c.pairJoin (c.idxsUpper x y z) 1 2 0 (coefPair invert 1 2 0)]

def getCoupled1FromPair03 : List Join :=
  [c.pairJoin (c.idxsLower x y z) 0 3 1 (coefPair invert 0 3 1)]

def getCoupled0FromPair13 : List Join :=
  [c.pairJoin (c.idxsLower x y z) 1 3 0 (coefPair invert 1 3 0)]

end

/-! ## One plane -/

/-- `_mds_encode_matrix` -/
def mdsEncodeMatrix (i j : Nat) : GF256 := entry (generateMatrix (c.mdsK + c.mdsM) c.mdsK) i j

/-- `select_lines`: the first `_mds_k` nodes that are not erased. -/
def selectLines (erased : List Nat) : List Nat :=
  ((List.range (c.mdsK + c.mdsM)).filter (· ∉ erased)).take c.mdsK

/-- `_invert_matrix` -/
def mdsInvert (invert : InvertMatrix8) (erased : List Nat) :
    Matrix (Fin c.mdsK) (Fin c.mdsK) GF256 :=
  invert c.mdsK (of fun i j => c.mdsEncodeMatrix ((c.selectLines erased).getD i 0) j)

/-- The uncoupled packets of the erased nodes in plane `z`. -/
def decodeUncoupled (invert : InvertMatrix8) (erased : List Nat) (z : Nat) : List Join :=
  let data := (c.selectLines erased).map fun i => c.identical (c.uncoupled (i * c.w + z))
  let inv := c.mdsInvert invert erased
  erased.map fun cidx =>
    ⟨c.getRealFromShort (c.identical (c.uncoupled (cidx * c.w + z))),
      data.map c.getRealFromShort,
      (List.finRange c.mdsK).map fun j : Fin c.mdsK =>
        GF256.toInt (∑ l : Fin c.mdsK, c.mdsEncodeMatrix cidx l * inv l j)⟩

/-- The uncoupled packets of plane `z`: first of the nodes that are there. -/
def decodeErasures (invert : InvertMatrix8) (erased : List Nat) (z : Nat) : List Join :=
  ((List.range c.q).flatMap fun x => (List.range c.t).flatMap fun y =>
    let nodeXy := c.q * y + x
    let nodeSw := c.q * y + c.zVec z y
    if nodeXy ∈ erased then []
    else if c.zVec z y < x then
      if nodeSw ∉ erased then c.getUncoupledFromCoupled x y z
      else c.getUncoupled2FromCoupled03 invert x y z
    else if c.zVec z y = x then []
    else if nodeSw ∈ erased then c.getUncoupled3FromCoupled02 invert x y z
    else []) ++
  c.decodeUncoupled invert erased z

/-! ## All planes -/

/-- `weight_vec` -/
def weightVec (erased : List Nat) : List Nat :=
  (List.range c.t).map fun y => ((List.range c.m).map fun i => erased.getD i 0 / c.q).count y

def hammingWeight (erased : List Nat) : Nat := (c.weightVec erased).countP (· ≠ 0)

/-- `order[z]`: the erased nodes that plane `z` names. -/
def order (erased : List Nat) (z : Nat) : Nat :=
  (List.range c.m).countP fun i =>
    erased.getD i 0 % c.q = c.zVec z (erased.getD i 0 / c.q)

/-- The loops over the orders and the planes; `coupled x y z` follows for each erased node. -/
def planesInOrder (invert : InvertMatrix8) (erased : List Nat)
    (coupled : Nat → Nat → Nat → List Join) : List Join :=
  (List.range (c.hammingWeight erased + 1)).flatMap fun hmW =>
    let planes := (List.range c.subChunkNo).filter fun z => c.order erased z = hmW
    (planes.flatMap fun z => c.decodeErasures invert erased z) ++
    planes.flatMap fun z => erased.flatMap fun i => coupled (i % c.q) (i / c.q) z

def encodeJoins (invert : InvertMatrix8) : List Join :=
  c.planesInOrder invert ((List.range' (c.k + c.nu) (c.n - c.k))) fun x y z =>
    if c.zVec z y = x then []
    else if c.zVec z y < x then c.getCoupledFromUncoupled invert x y z else []

def encode (invert : InvertMatrix8) : ECDAG := .build (c.encodeJoins invert)

/-- No erased node of the column is named by the plane. -/
def isErasureType1 (erased : List Nat) (x y z : Nat) : Bool :=
  x ≠ c.zVec z y ∧ ∀ i ∈ (List.range c.m), erased.getD i 0 / c.q = y →
    erased.getD i 0 % c.q ≠ c.zVec z y

def decodeLayered (invert : InvertMatrix8) (erased : List Nat) : List Join :=
  c.planesInOrder invert erased fun x y z =>
    if c.zVec z y = x then []
    else if c.isErasureType1 erased x y z then
      if x > c.zVec z y then c.getCoupled0FromPair12 invert x y z
      else c.getCoupled1FromPair03 invert x y z
    else if c.zVec z y < x then c.getCoupledFromUncoupled invert x y z else []

/-! ## One lost node

Also several, when they are in one column. -/

/-- Start and length of the intervals of planes that name the lost node. -/
def getRepairSubchunks (lostNode : Nat) : List (Nat × Nat) :=
  let yLost := lostNode / c.q
  let xLost := lostNode % c.q
  let seqScCount := powInt c.q (c.t - 1 - yLost)
  (List.range (powInt c.q yLost)).map fun indSeq =>
    (xLost * seqScCount + indSeq * (c.q * seqScCount), seqScCount)

section
variable (invert : InvertMatrix8) (recovered aloof helper : List Nat)
  (repairSubChunksInd : List (Nat × Nat))

/-- The planes of the intervals, one after another. -/
def repairPlanes : List Nat := repairSubChunksInd.flatMap fun e => List.range' e.1 e.2

/-- The lost and the aloof nodes that plane `z` names. -/
def repairOrder (z : Nat) : Nat :=
  (recovered ++ aloof).countP fun node => node % c.q = c.zVec z (node / c.q)

/-- `lost_chunk`: the loop keeps the last one. -/
def lostChunk : Nat := recovered.getLastD 0

/-- `erasures`: the column of the lost node, and the aloof nodes. -/
def repairErasures : List Nat :=
  ((List.range c.q).map fun i => lostChunk recovered - lostChunk recovered % c.q + i) ++ aloof

/-- The uncoupled packets of the helpers in plane `z`. -/
def helperUncoupled (z : Nat) : List Join :=
  (List.range c.t).flatMap fun y => (List.range c.q).flatMap fun x =>
    let nodeXy := y * c.q + x
    let nodeSw := y * c.q + c.zVec z y
    if nodeXy ∈ c.repairErasures recovered aloof then []
    else if nodeSw ∈ aloof then
      if c.zVec z y > x then c.getUncoupled3FromCoupled12 invert x y z
      else c.getUncoupled2FromCoupled03 invert x y z
    else if c.zVec z y = x then []
    else if c.zVec z y < x then c.getUncoupled2FromCoupled x y z
    else c.getUncoupled3FromCoupled x y z

/-- The coupled packets of the lost nodes that plane `z` gives. -/
def recoverCoupled (z : Nat) : List Join :=
  (c.repairErasures recovered aloof).flatMap fun i =>
    let x := i % c.q
    let y := i / c.q
    if i ∈ aloof then []
    else if x = c.zVec z y then []
    else if i ∈ helper then
      if c.zVec z y < x then c.getCoupled1FromPair02 invert x y z
      else if c.zVec z y > x then c.getCoupled0FromPair13 invert x y z
      else []
    else if x < c.zVec z y then c.getCoupled10FromUncoupled invert x y z
    else []

/-- The keys of `ordered_planes`, in ascending order. -/
def orderlist : List Nat :=
  (List.range ((recovered ++ aloof).length + 1)).filter fun order =>
    ∃ z ∈ repairPlanes repairSubChunksInd, c.repairOrder recovered aloof z = order

/-- What the function asserts of a node that is not erased. -/
def helperAsserts (planes : List Nat) (x y z : Nat) : Bool :=
  y * c.q + x ∈ c.repairErasures recovered aloof ∨
    (y * c.q + x ∈ helper ∧
      (y * c.q + c.zVec z y ∈ aloof ∨ y * c.q + c.zVec z y ∈ helper) ∧
      (c.zVec z y = x ∨ c.zSw x y z ∈ planes))

/-- What it asserts of an erased node. -/
def erasureAsserts (i z : Nat) : Bool :=
  i ∈ aloof ∨ i % c.q = c.zVec z (i / c.q) ∨ i / c.q = lostChunk recovered / c.q

def repairAsserts : Bool :=
  let planes := repairPlanes repairSubChunksInd
  planes.length == recovered.length * c.subChunkNo / c.q && planes.all fun z =>
    0 < c.repairOrder recovered aloof z &&
    ((List.range c.t).all fun y => (List.range c.q).all fun x =>
      c.helperAsserts recovered aloof helper planes x y z) &&
    (c.repairErasures recovered aloof).all fun i => c.erasureAsserts recovered aloof i z

/-- `repair_one_lost_chunk`; an assertion that fails ends the program. -/
def repairOneLostChunk : Option (List Join) :=
  if c.repairAsserts recovered aloof helper repairSubChunksInd then
    some ((c.orderlist recovered aloof repairSubChunksInd).flatMap fun order =>
      ((repairPlanes repairSubChunksInd).filter fun z =>
        c.repairOrder recovered aloof z = order).flatMap fun z =>
          c.helperUncoupled invert recovered aloof z ++
          c.decodeUncoupled invert (c.repairErasures recovered aloof) z ++
          c.recoverCoupled invert recovered aloof helper z)
  else none

end

/-! ## Decode -/

/-- The number of planes that name a lost node, for nodes that are counted as they are. -/
def getRepairSubChunkCount (wantToRead : List Nat) : Nat :=
  c.subChunkNo - ((List.range c.t).map fun y =>
    c.q - (wantToRead.map fun i => i / c.q).count y).prod

/-- The short number of a real node. -/
def shortNode (i : Nat) : Nat := if i < c.k then i else i + c.nu

/-- Can the lost nodes be repaired from parts of the others? For one lost node the other nodes
of its column have to be there; a virtual node counts as node `node - _nu`. -/
def isRepair (wantToRead avail : List Nat) : Bool :=
  match wantToRead with
  | [] => false
  | [i] =>
    (∀ x < c.q,
      let node := c.shortNode i / c.q * c.q + x
      let node : Int := if node < c.k then node else node - c.nu
      node ≠ i → node ∈ avail.map Int.ofNat) ∧ c.d ≤ avail.length
  | i :: rest =>
    if c.d < c.k + c.m - 1 then
      wantToRead.length ≤ c.k + c.m - c.d ∧
        c.d * c.getRepairSubChunkCount wantToRead ≤ c.k * c.subChunkNo
    else
      wantToRead.length ≤ c.q - 1 ∧
        ∀ j ∈ rest, c.shortNode j / c.q = c.shortNode i / c.q

/-- The nodes `minimum_to_repair` reads from. -/
def minimumToRepair (wantToRead avail : List Nat) : List Nat :=
  match wantToRead with
  | [] => []
  | [i] =>
    if c.d ≤ avail.length then
      let column := ((List.range c.q).filter (· ≠ c.shortNode i % c.q)).filterMap fun j =>
        let node := c.shortNode i / c.q * c.q + j
        if node < c.k then some node
        else if c.k + c.nu ≤ node then some (node - c.nu) else none
      avail.foldl (fun minimum chunk =>
        if c.d ≤ minimum.length ∨ chunk ∈ minimum then minimum else minimum ++ [chunk]) column
    else []
  | _ =>
    if c.d < c.k + c.m - 1 then []
    else if ∃ i < c.k + c.m, i ∈ wantToRead then
      -- the position in the list is compared, not the node
      ((List.range avail.length).filterMap fun j =>
        if j < c.k then some (avail.getD j 0)
        else if c.k + c.nu ≤ j then some (avail.getD j 0 - c.nu) else none).dedup
    else []

/-- The nodes `rs1_minimum_to_decode` reads from. -/
def rsMinimumToDecode (wantToRead avail : List Nat) : List Nat :=
  if wantToRead ⊆ avail then wantToRead else avail.take c.k

/-- `want_to_read`: the nodes of every `_w`-th packet. -/
def wantToRead (dst : List Nat) : List Nat :=
  (List.range ((dst.length + c.w - 1) / c.w)).map fun i => dst.getD (i * c.w) 0 / c.w

def availNodes (want : List Nat) : List Nat :=
  (List.range (c.k + c.nu + c.m)).filter (· ∉ want)

/-- The first half of `Decode`, up to the calls for one column. -/
def repairJoins (invert : InvertMatrix8) (want chunks : List Nat) : Option (List Join) :=
  let nodes := List.range (c.k + c.m)
  let helper := (nodes.filter fun i => i ∈ chunks ∧ i ∉ want).map c.shortNode ++
    List.range' c.k c.nu
  let aloof := (nodes.filter fun i => i ∉ chunks ∧ i ∉ want).map c.shortNode
  let recovered := (nodes.filter (· ∈ want)).map c.shortNode
  if helper.length + aloof.length + recovered.length = c.q * c.t then
    c.repairOneLostChunk invert recovered aloof helper
      (recovered.flatMap c.getRepairSubchunks)
  else none

/-- `rs_decode` and `decode_chunks`: what is not among the chunks is erased. -/
def rsDecode (invert : InvertMatrix8) (want chunks : List Nat) : Option (List Join) :=
  if want ⊆ chunks then some []
  else
    let erasures := ((List.range (c.k + c.m)).filter (· ∉ chunks)).map c.shortNode
    if 0 < erasures.length ∧ erasures.length = c.m then
      some (c.decodeLayered invert erasures)
    else none

def decodeJoins (invert : InvertMatrix8) (dst : List Nat) : Option (List Join) :=
  let want := c.wantToRead dst
  let avail := c.availNodes want
  if c.isRepair want avail then c.repairJoins invert want (c.minimumToRepair want avail)
  else c.rsDecode invert want (c.rsMinimumToDecode want avail)

/-- `Decode(from, to)`; `from` is not read. -/
def decode (invert : InvertMatrix8) (_src dst : List Nat) : Option ECDAG :=
  (c.decodeJoins invert dst).map .build

end

end Clay

end StripeRepair
