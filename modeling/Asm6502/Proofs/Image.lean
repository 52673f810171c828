import Asm6502.Proofs.Emission

/-! Layout and image agree.

The first pass places statements by the sizes that their modes and contents promise, the second
emits bytes. `Tiles` says what a program has in which the two agree: on every level the nodes fill
the addresses from the level's start to its stop, none between two of them left out, and each
statement has its own bytes. Every linked block does (`tiles_of_emits`), so `link_laidOut` can say
where each byte of the image comes from: addresses are prefix sums of sizes on every level, the
code is as long as the addresses say, and each statement's bytes are found in it at the
statement's address. -/
namespace Asm6502

/-! ### Nodes -/

/-- What stands in a linked block: a statement or another block. -/
inductive Node where
  | statement (p : Placed Emitted)
  | block (scope : Scope) (body : Outline Scope (Placed Emitted))

/-- The nodes directly in a linked block. -/
def nodes : Outline Scope (Placed Emitted) → List Node
  | .nil => []
  | .item p rest => .statement p :: nodes rest
  | .group scope inner rest => .block scope inner :: nodes rest

namespace Node

def address : Node → Nat
  | statement p => p.address
  | block scope _ => scope.origin

/-- The number of bytes of a node: those of the code or the data, none for a label, and for an
alignment the way to its target. -/
def size : Node → Nat
  | statement p =>
    match p.content.statement with
    | .instruction _ => p.content.bytes.length
    | .label _ => 0
    | .align a => a.address.toNat - p.address
    | .data d => d.bytes.length
  | block scope _ => scope.stop - scope.origin

/-- The number of bytes of nodes one behind another. -/
def totalSize : List Node → Nat
  | [] => 0
  | n :: rest => n.size + totalSize rest

end Node

/-- The bytes of a statement at an address are its encoding, its data, or zeroes up to the target of
an alignment. -/
def Emitted.Genuine (address : Nat) (e : Emitted) : Prop :=
  match e.statement with
  | .instruction i => i.encode = .ok e.bytes
  | .label _ => e.bytes = []
  | .align a => address + e.bytes.length = a.address.toNat ∧ ∀ byte ∈ e.bytes, byte = 0
  | .data d => e.bytes = d.bytes

theorem Node.size_statement {p : Placed Emitted} (h : p.content.Genuine p.address) :
    (Node.statement p).size = p.content.bytes.length := by
  unfold Emitted.Genuine at h
  unfold Node.size
  split at h <;> rename_i hs <;> simp only [hs]
  · rw [h]
    rfl
  · omega
  · rw [h]

theorem Statement.genuine_of_emit {labels : SymbolTable} {address : Nat} {s : Statement} {e : Emitted}
    (hf : s.fault? address = none) (h : s.emit labels address = .ok e) : e.Genuine address := by
  obtain ⟨i, j, rfl, _, hb, he⟩ | ⟨l, rfl, rfl⟩ | ⟨a, rfl, rfl⟩ | ⟨d, rfl, rfl⟩ := emit_cases h
  · unfold Emitted.Genuine
    rw [he]
    exact hb
  · rfl
  · have hle : address ≤ a.address.toNat := (stopAt_of_fault hf).1
    refine ⟨?_, fun byte hbyte => List.eq_of_mem_replicate hbyte⟩
    simp only [List.length_replicate]
    omega
  · rfl

/-! ### Tilings -/

/-- The nodes fill the addresses from start to stop, on this level and on all below it. -/
inductive Tiles : Nat → Nat → Outline Scope (Placed Emitted) → Prop where
  | nil {start} : Tiles start start .nil
  | item {p rest stop} : p.content.Genuine p.address →
      Tiles (p.address + p.content.bytes.length) stop rest → Tiles p.address stop (.item p rest)
  | group {scope inner rest stop} : scope.stop ≤ memorySize → Tiles scope.origin scope.stop inner →
      Tiles scope.stop stop rest → Tiles scope.origin stop (.group scope inner rest)

/-- The bytes of a linked block. -/
def bytesOf (o : Outline Scope (Placed Emitted)) : List UInt8 :=
  o.leaves.flatMap fun e => e.content.bytes

theorem bytesOf_group (scope : Scope) (inner rest : Outline Scope (Placed Emitted)) :
    bytesOf (.group scope inner rest) = bytesOf inner ++ bytesOf rest :=
  List.flatMap_append

/-- **Both passes agree**: what a block without fault emits fills the addresses that were kept. -/
theorem tiles_of_emits {b : Block} {address : Nat} {labels : SymbolTable}
    {out : Outline Scope (Placed Emitted)} (hb : ∀ s ∈ b.leaves, s.Sound) (ha : address ≤ memorySize)
    (hf : firstFault address b.leaves = none) (h : Emits labels (b.placed address) out) :
    Tiles address (b.stopAt address) out := by
  induction b generalizing address labels out with
  | nil =>
    cases h
    exact .nil
  | item s rest ih =>
    cases h with
    | @item _ _ e _ out he hr =>
      rw [Outline.leaves, firstFault_cons, Option.or_eq_none_iff] at hf
      have hlen := Statement.emit_length (hb s (List.mem_cons_self ..)) hf.1 he
      have hrest := ih (fun t ht => hb t (List.mem_cons_of_mem _ ht))
        (Statement.stopAt_of_fault hf.1).2 hf.2 hr
      refine @Tiles.item ⟨address, e⟩ _ _ (Statement.genuine_of_emit hf.1 he) ?_
      show Tiles (address + e.bytes.length) _ out
      rw [hlen]
      exact hrest
  | group _ inner rest ihi ihr =>
    cases h with
    | group hi hr =>
      rw [Outline.leaves, firstFault_append, Option.or_eq_none_iff] at hf
      have hstop : Block.stopAt address inner ≤ memorySize := runningAddress_le ha hf.1
      have hrest := ihr (fun t ht => hb t (List.mem_append_right _ ht)) hstop hf.2 hr
      have hinner := ihi (fun t ht => hb t (List.mem_append_left _ ht)) ha hf.1 hi
      rw [← Block.stopAt_group] at hrest
      exact @Tiles.group ⟨address, _, _⟩ _ _ _ hstop hinner hrest

namespace Tiles
variable {start stop : Nat} {o : Outline Scope (Placed Emitted)}

theorem length (h : Tiles start stop o) : start + (bytesOf o).length = stop := by
  induction h with
  | nil => rfl
  | item _ _ ih =>
    simp only [bytesOf, Outline.leaves, List.flatMap_cons, List.length_append] at ih ⊢
    omega
  | group _ _ _ ihi ihr =>
    rw [bytesOf_group, List.length_append]
    omega

theorem le (h : Tiles start stop o) : start ≤ stop := by
  have := h.length
  omega

/-- Each statement's bytes stand in the code as far from the start as its address does. -/
theorem embedded (h : Tiles start stop o) {e : Placed Emitted} (he : e ∈ o.leaves) :
    ∃ before after, bytesOf o = before ++ e.content.bytes ++ after ∧
      start + before.length = e.address := by
  induction h with
  | nil => cases he
  | @item p rest stop _ _ ih =>
    rcases List.mem_cons.mp he with rfl | he
    · exact ⟨[], bytesOf rest, by simp [bytesOf, Outline.leaves], rfl⟩
    · obtain ⟨before, after, hsplit, haddr⟩ := ih he
      refine ⟨p.content.bytes ++ before, after, ?_, ?_⟩
      · show p.content.bytes ++ bytesOf rest = _
        rw [hsplit]
        simp only [List.append_assoc]
      · rw [List.length_append]
        omega
  | @group scope inner rest stop _ hi _ ihi ihr =>
    rw [bytesOf_group]
    rcases List.mem_append.mp he with he | he
    · obtain ⟨before, after, hsplit, haddr⟩ := ihi he
      refine ⟨before, after ++ bytesOf rest, ?_, haddr⟩
      rw [hsplit]
      simp only [List.append_assoc]
    · obtain ⟨before, after, hsplit, haddr⟩ := ihr he
      have hlen := hi.length
      refine ⟨bytesOf inner ++ before, after, ?_, ?_⟩
      · rw [hsplit]
        simp only [List.append_assoc]
      · rw [List.length_append]
        omega

/-- Each statement's bytes are read from the code at its address. -/
theorem slice (h : Tiles start stop o) {e : Placed Emitted} (he : e ∈ o.leaves) :
    start ≤ e.address ∧
      ((bytesOf o).drop (e.address - start)).take e.content.bytes.length = e.content.bytes := by
  obtain ⟨before, after, hsplit, haddr⟩ := h.embedded he
  refine ⟨by omega, ?_⟩
  have hoff : e.address - start = before.length := by omega
  rw [hsplit, hoff, List.append_assoc, List.drop_left, List.take_left]

theorem genuine (h : Tiles start stop o) : ∀ e ∈ o.leaves, e.content.Genuine e.address := by
  induction h with
  | nil =>
    intro e he
    cases he
  | item hg _ ih => exact List.forall_mem_cons.mpr ⟨hg, ih⟩
  | group _ _ _ ihi ihr =>
    intro e he
    exact (List.mem_append.mp he).elim (ihi e) (ihr e)

/-- Addresses never decrease from leaf to leaf and stay between start and stop. -/
theorem leaves_ordered (h : Tiles start stop o) : (∀ e ∈ o.leaves, start ≤ e.address ∧ e.address ≤ stop) ∧
    (o.leaves.map Placed.address).Pairwise (· ≤ ·) := by
  induction h with
  | nil => exact ⟨fun e he => (by cases he), List.Pairwise.nil⟩
  | @item p rest stop _ hr ih =>
    obtain ⟨hbound, hpair⟩ := ih
    have hle := hr.le
    refine ⟨List.forall_mem_cons.mpr ⟨by omega, fun e he => ?_⟩, List.pairwise_cons.mpr ⟨?_, hpair⟩⟩
    · have := hbound e he
      omega
    · intro a ha
      obtain ⟨e, he, rfl⟩ := List.mem_map.mp ha
      have := hbound e he
      omega
  | @group scope inner rest stop _ hi hr ihi ihr =>
    obtain ⟨hboundi, hpairi⟩ := ihi
    obtain ⟨hboundr, hpairr⟩ := ihr
    have hlei := hi.le
    have hler := hr.le
    refine ⟨fun e he => ?_, ?_⟩
    · rcases List.mem_append.mp he with he | he
      · have := hboundi e he
        omega
      · have := hboundr e he
        omega
    · rw [Outline.leaves, List.map_append, List.pairwise_append]
      refine ⟨hpairi, hpairr, fun a ha c hc => ?_⟩
      obtain ⟨e, he, rfl⟩ := List.mem_map.mp ha
      obtain ⟨f, hf, rfl⟩ := List.mem_map.mp hc
      have := hboundi e he
      have := hboundr f hf
      omega

/-- Every block inside a tiled one is tiled. -/
theorem groups (h : Tiles start stop o) :
    ∀ g ∈ o.groups, g.1.stop ≤ memorySize ∧ Tiles g.1.origin g.1.stop g.2 := by
  induction h with
  | nil =>
    intro g hg
    cases hg
  | item _ _ ih => exact ih
  | group hs hi _ ihi ihr =>
    refine List.forall_mem_cons.mpr ⟨⟨hs, hi⟩, fun g hg => ?_⟩
    exact (List.mem_append.mp hg).elim (ihi g) (ihr g)

/-! One level: the address of a node is the sum of the sizes before it. -/

theorem address_eq (h : Tiles start stop o) {before after : List Node} {n : Node}
    (hn : nodes o = before ++ n :: after) : n.address = start + Node.totalSize before := by
  induction h generalizing before with
  | nil => cases before <;> cases hn
  | @item p rest stop hg _ ih =>
    cases before with
    | nil =>
      cases hn
      rfl
    | cons first before =>
      obtain ⟨rfl, htail⟩ := List.cons.inj hn
      rw [ih htail, Node.totalSize, Node.size_statement hg, Nat.add_assoc]
  | @group scope inner rest stop _ hi _ _ ihr =>
    cases before with
    | nil =>
      cases hn
      rfl
    | cons first before =>
      obtain ⟨rfl, htail⟩ := List.cons.inj hn
      have hle := hi.le
      have hsize : (Node.block scope inner).size = scope.stop - scope.origin := rfl
      rw [ihr htail, Node.totalSize, hsize]
      omega

theorem stop_eq (h : Tiles start stop o) : stop = start + Node.totalSize (nodes o) := by
  induction h with
  | nil => rfl
  | @item p rest stop hg _ ih =>
    rw [nodes, Node.totalSize, Node.size_statement hg]
    omega
  | @group scope inner rest stop _ hi _ _ ihr =>
    have hle := hi.le
    have hsize : (Node.block scope inner).size = scope.stop - scope.origin := rfl
    rw [nodes, Node.totalSize, hsize]
    omega

theorem nodes_ordered (h : Tiles start stop o) :
    (∀ n ∈ nodes o, start ≤ n.address) ∧ ((nodes o).map Node.address).Pairwise (· ≤ ·) := by
  induction h with
  | nil => exact ⟨fun n hn => (by cases hn), List.Pairwise.nil⟩
  | @item p rest stop _ _ ih =>
    refine ⟨List.forall_mem_cons.mpr ⟨Nat.le_refl _, fun n hn => ?_⟩, List.pairwise_cons.mpr ⟨?_, ih.2⟩⟩
    · have := ih.1 n hn
      omega
    · intro a ha
      obtain ⟨n, hn, rfl⟩ := List.mem_map.mp ha
      exact Nat.le_trans (Nat.le_add_right ..) (ih.1 n hn)
  | @group scope inner rest stop _ hi _ _ ihr =>
    have hle := hi.le
    refine ⟨List.forall_mem_cons.mpr ⟨Nat.le_refl _, fun n hn => ?_⟩, List.pairwise_cons.mpr ⟨?_, ihr.2⟩⟩
    · exact Nat.le_trans hle (ihr.1 n hn)
    · intro a ha
      obtain ⟨n, hn, rfl⟩ := List.mem_map.mp ha
      exact Nat.le_trans hle (ihr.1 n hn)

end Tiles

/-! ### The image -/

/-- One level of a linked program: the address of each node is the origin and the sizes of the
nodes before it, and the stop is the origin and the sizes of all nodes. -/
structure Scope.Tiled (scope : Scope) (body : Outline Scope (Placed Emitted)) : Prop where
  address : ∀ before n after, nodes body = before ++ n :: after →
    n.address = scope.origin + Node.totalSize before
  stop : scope.stop = scope.origin + Node.totalSize (nodes body)
  ordered : ((nodes body).map Node.address).Pairwise (· ≤ ·)
  fits : scope.stop ≤ memorySize

theorem Tiles.tiled {scope : Scope} {body : Outline Scope (Placed Emitted)} (hs : scope.stop ≤ memorySize)
    (h : Tiles scope.origin scope.stop body) : scope.Tiled body :=
  ⟨fun _ _ _ hn => h.address_eq hn, h.stop_eq, h.nodes_ordered.2, hs⟩

namespace Program

/-- The layout and the image of a program agree. -/
structure LaidOut (p : Program) : Prop where
  /-- Addresses are sums of sizes on every level. -/
  tiled : ∀ block ∈ p.blocks, block.1.Tiled block.2
  /-- Addresses never decrease from one statement to the next, at whatever depths they lie. -/
  ordered : (p.body.leaves.map Placed.address).Pairwise (· ≤ ·)
  /-- The origin is a word. -/
  origin : p.origin ≤ 0xffff
  stop : p.stop ≤ 0x10000
  length : p.code.length = p.stop - p.origin
  /-- Every statement has the bytes that it stands for. -/
  genuine : ∀ e ∈ p.body.leaves, e.content.Genuine e.address
  /-- These bytes are found in the code at the statement's address. -/
  slice : ∀ e ∈ p.body.leaves, p.origin ≤ e.address ∧
    (p.code.drop (e.address - p.origin)).take (Node.statement e).size = e.content.bytes
  /-- The file is the origin, low byte first, and then the code. -/
  image : ∃ low high : UInt8, p.image = low :: high :: p.code ∧
    low.toNat + 256 * high.toNat = p.origin

end Program

theorem laidOut_of_tiles {p : Program} (ho : p.origin < memorySize) (hs : p.stop ≤ memorySize)
    (h : Tiles p.origin p.stop p.body) : p.LaidOut := by
  have hcode : p.code = bytesOf p.body := rfl
  have hlen := h.length
  have hword : p.origin ≤ 0xffff := Nat.le_of_lt_succ ho
  refine ⟨?_, h.leaves_ordered.2, hword, hs, ?_, h.genuine, fun e he => ?_, ?_⟩
  · refine List.forall_mem_cons.mpr ⟨Tiles.tiled hs h, fun g hg => ?_⟩
    exact Tiles.tiled (h.groups g hg).1 (h.groups g hg).2
  · rw [hcode]
    omega
  · rw [hcode, Node.size_statement (h.genuine e he)]
    exact h.slice he
  · obtain ⟨low, high, hbytes, hvalue⟩ := Word.littleEndian_value hword
    exact ⟨low, high, by rw [Program.image, hbytes]; rfl, hvalue⟩

/-- **Layout and image agree** in every program that was linked, whatever the block and the origin;
and the program has the form of the block and, resolution apart, its statements. -/
theorem link_laidOut {b : Block} (hb : b.Reachable) {origin : Int} {p : Program}
    (h : b.link origin = .ok p) : p.LaidOut ∧ p.unlinked = b.map id Statement.pending := by
  obtain ⟨_, hlt, hl⟩ := linksTo_of_link h
  have hstop : b.stopAt (b.startFor origin.toNat) ≤ memorySize :=
    runningAddress_le (Nat.le_of_lt hlt) hl.faultless
  have htiles := tiles_of_emits (Statement.sound_of_reachable hb) (Nat.le_of_lt hlt) hl.faultless hl.emits
  have horigin : p.origin = b.startFor origin.toNat := congrArg Scope.origin hl.scope
  have hend : p.stop = b.stopAt (b.startFor origin.toNat) := congrArg Scope.stop hl.scope
  refine ⟨laidOut_of_tiles ?_ ?_ ?_, hl.unlinked⟩
  · rw [horigin]
    exact hlt
  · rw [hend]
    exact hstop
  · rw [horigin, hend]
    exact htiles

theorem countdown_laidOut : ∃ p, Block.countdown.link 0x1000 = .ok p ∧ p.LaidOut ∧
    p.unlinked = Block.countdown.map id Statement.pending := by
  obtain ⟨p, hp⟩ : ∃ p, Block.countdown.link 0x1000 = .ok p := ⟨_, rfl⟩
  exact ⟨p, hp, link_laidOut Block.countdown_fresh.reachable hp⟩

end Asm6502
