/-
  File:      TinyOS64/Main/Graphics.lean
  Subject:   do_graphics and the pixel loop of mandelbrot (main.cpp).

  The frame buffer's address is taken before the mode is set, the resolution after it, and the
  pixel loop counts `int`s with the resolution as its stride. The colours are a parameter.
  `graphics_draws_iff` says when every visible pixel of the active mode is written once, at its
  place, and nothing else.
-/
import TinyOS64.Console.Console

namespace TinyOS64

open Interaction

/-! ## 1. The program -/

/-- The members of `EFI_GRAPHICS_OUTPUT_MODE_INFORMATION` that say where pixels are. -/
structure ModeInformation where
  m_horizontalResolution : BitVec 32
  m_verticalResolution : BitVec 32
  m_pixelsPerScanline : BitVec 32
  deriving DecidableEq, Repr

/-- What `gop->Mode` points to, with what its `m_info` points to. -/
structure ProtocolMode extends GraphicsMode where
  m_info : ModeInformation
  deriving DecidableEq, Repr

/-- The questions of `do_graphics`: the firmware's, a read through `gop->Mode`, a store through the
    frame buffer's pointer, and `print`. -/
inductive GraphicsOp where
  | locateProtocol
  | mode
  | queryMode (modeNumber : BitVec 32)
  | setMode (modeNumber : BitVec 32)
  | store32 (address : BitVec 64) (value : BitVec 32)
  | print (fmt : String) (va : List Arg)

/-- Their answers: statuses; what `Mode` points to, if it is not null; the two resolutions in
    `*info`. -/
@[reducible] def GraphicsOp.Ans : GraphicsOp → Type
  | locateProtocol | setMode _ => BitVec 64
  | mode => Option ProtocolMode
  | queryMode _ => BitVec 32 × BitVec 32
  | store32 .. => Unit
  | print .. => Nat

/-- The signature of programs on the graphics protocol. -/
@[reducible] def Graphics : Sig := ⟨GraphicsOp, GraphicsOp.Ans⟩

/-- Programs on the graphics protocol that may stop. -/
abbrev GraphicsM := ExceptT Fault (Prog Graphics)

namespace Graphics

def ask (o : GraphicsOp) : Prog Graphics o.Ans := .ask (S := Graphics) o .ret

def print (fmt : String) (va : List Arg) : Prog Graphics Unit := do
  let _ ← ask (.print fmt va)

end Graphics

/-- The colour `mandelbrot` computes for a pixel from width, height, x and y. -/
abbrev Colour := BitVec 32 → BitVec 32 → BitVec 32 → BitVec 32 → BitVec 32

/-- `frameBuffer[x + width*y]`, the index computed as an `int`. -/
def pixelAddress (width : BitVec 32) (frameBuffer : BitVec 64) (x y : Nat) : BitVec 64 :=
  frameBuffer + (BitVec.ofNat 32 x + width * BitVec.ofNat 32 y).signExtend 64 * 4

/-- `mandelbrot`: the loops over signed counters. -/
def mandelbrot (colour : Colour) (width height : BitVec 32) (frameBuffer : BitVec 64) :
    Prog Graphics Unit :=
  (List.range height.toInt.toNat).forM fun y =>
    (List.range width.toInt.toNat).forM fun x =>
      Graphics.ask (.store32 (pixelAddress width frameBuffer x y)
        (colour width height (BitVec.ofNat 32 x) (BitVec.ofNat 32 y)))

/-- One turn of the loop over the modes; `desiredMode` is -1 until a mode is 640x480. -/
def considerMode (desiredMode : BitVec 32) (modeIdx : Nat) : Prog Graphics (BitVec 32) := do
  if modeIdx % 2 = 0 then Graphics.print "\n\r" []
  let (modeWidth, modeHeight) ← Graphics.ask (.queryMode (BitVec.ofNat 32 modeIdx))
  Graphics.print "mode %d -> x=%d  y=%d        "
    [.u64 (BitVec.ofNat 64 modeIdx), .u32 modeWidth, .u32 modeHeight]
  if modeWidth = 640 ∧ modeHeight = 480 then pure (BitVec.ofNat 32 modeIdx) else pure desiredMode

def findMode (maxMode : BitVec 32) : Prog Graphics (BitVec 32) :=
  (List.range maxMode.toNat).foldlM considerMode 0xFFFFFFFF

/-- `*gop->Mode`, where the source does not check. -/
def derefProtocolMode : Option ProtocolMode → Except Fault ProtocolMode
  | none => .error .nullPointer
  | some mode => .ok mode

/-- The desired mode, if one was found, is set. -/
def setDesiredMode (desiredMode : BitVec 32) : Prog Graphics Unit := do
  if desiredMode ≠ 0xFFFFFFFF then
    Graphics.print "Setting GOP to mode %d\n" [.u32 desiredMode]
    let _ ← Graphics.ask (.setMode desiredMode)

/-- `do_graphics`. -/
def do_graphics (colour : Colour) : GraphicsM Unit := do
  let status ← Graphics.ask .locateProtocol
  if status ≠ 0 then Graphics.print "Shit" []
  else
    let current := (← Graphics.ask .mode).getD ⟨⟨0, 0, 0, 0⟩, ⟨0, 0, 0⟩⟩
    Graphics.print "Current video mode is %d\n\r" [.u32 current.m_mode]
    Graphics.print "Frame buffer address  %X\n\r" [.u64 current.m_frameBufferBase]
    Graphics.print "Frame buffer size     %d bytes\n\r" [.u64 current.m_frameBufferSize]
    let mode ← derefProtocolMode (← Graphics.ask .mode)
    Graphics.print "Available modes: %d\n\r" [.u32 mode.m_maxMode]
    let desiredMode ← findMode current.m_maxMode
    Graphics.print "\n\r" []
    setDesiredMode desiredMode
    let active ← derefProtocolMode (← Graphics.ask .mode)
    mandelbrot colour active.m_info.m_horizontalResolution active.m_info.m_verticalResolution
      current.m_frameBufferBase

/-! ## 2. The firmware -/

/-- A firmware with a graphics protocol: the resolutions its modes are queried with, and what
    `SetMode` answers and makes of the mode. -/
structure GraphicsFirmware where
  query : BitVec 32 → BitVec 32 × BitVec 32
  set : BitVec 32 → ProtocolMode → BitVec 64 × ProtocolMode

namespace GraphicsFirmware

variable (g : GraphicsFirmware)

/-- The protocol is there and `Mode` is not null; its state is what `Mode` points to. -/
def device : Prog.Device Graphics ProtocolMode := fun o s =>
  match o with
  | .locateProtocol => ((0 : BitVec 64), s)
  | .mode => (some s, s)
  | .queryMode modeNumber => (g.query modeNumber, s)
  | .setMode modeNumber => g.set modeNumber s
  | .store32 _ _ => ((), s)
  | .print fmt va => (printCount fmt va, s)

/-- The last of the modes below `maxMode` that is 640x480, else -1. -/
def desiredMode (maxMode : BitVec 32) : BitVec 32 :=
  (List.range maxMode.toNat).foldl (fun desired modeIdx =>
    if g.query (BitVec.ofNat 32 modeIdx) = (640, 480) then BitVec.ofNat 32 modeIdx
    else desired) 0xFFFFFFFF

/-- The mode that is active when the drawing begins. -/
def activeMode (before : ProtocolMode) : ProtocolMode :=
  if g.desiredMode before.m_maxMode ≠ 0xFFFFFFFF then
    (g.set (g.desiredMode before.m_maxMode) before).2
  else before

end GraphicsFirmware

/-- The stores of a run, address and value. -/
def storesOf (ops : List GraphicsOp) : List (BitVec 64 × BitVec 32) :=
  ops.filterMap fun o =>
    match o with
    | .store32 address value => some (address, value)
    | _ => none

/-- The pixels of a screen, row after row, each with its address. -/
def pixelGrid (columns rows : Nat) (address : Nat → Nat → BitVec 64)
    (colour : Nat → Nat → BitVec 32) : List (BitVec 64 × BitVec 32) :=
  (List.range rows).flatMap fun y => (List.range columns).map fun x => (address x y, colour x y)

/-- The 32-bit word of pixel (x, y) of a mode. -/
def visibleAddress (mode : ProtocolMode) (x y : Nat) : BitVec 64 :=
  mode.m_frameBufferBase + BitVec.ofNat 64 (4 * (y * mode.m_info.m_pixelsPerScanline.toNat + x))

/-- The visible pixels of a mode. -/
def visiblePixels (colour : Colour) (mode : ProtocolMode) : List (BitVec 64 × BitVec 32) :=
  pixelGrid mode.m_info.m_horizontalResolution.toNat mode.m_info.m_verticalResolution.toNat
    (visibleAddress mode) fun x y =>
      colour mode.m_info.m_horizontalResolution mode.m_info.m_verticalResolution
        (BitVec.ofNat 32 x) (BitVec.ofNat 32 y)

/-- **What `do_graphics` owes**: whatever the colours, its stores are one for each visible pixel of
    the mode it leaves active, at the pixel's place, and no others. -/
def DrawsVisible (g : GraphicsFirmware) (before : ProtocolMode) : Prop :=
  ∀ colour, (storesOf ((do_graphics colour).run.asks g.device before)).Perm
    (visiblePixels colour ((do_graphics colour).run.exec g.device before).2)

/-! ## 3. What is stored -/

theorem storesOf_append (ops ops' : List GraphicsOp) :
    storesOf (ops ++ ops') = storesOf ops ++ storesOf ops' := List.filterMap_append

/-- A program that stores nothing. -/
abbrev Storeless {α : Type} (p : Prog Graphics α) : Prop :=
  p.AsksOnly fun o => ∀ address value, o ≠ GraphicsOp.store32 address value

theorem Storeless.storesOf {α : Type} {p : Prog Graphics α} (hp : Storeless p)
    (g : GraphicsFirmware) (s : ProtocolMode) : storesOf (p.asks g.device s) = [] := by
  refine List.filterMap_eq_nil_iff.mpr fun o ho => ?_
  cases o with
  | store32 address value => exact absurd rfl (hp.asks g.device s _ ho address value)
  | _ => rfl

theorem storeless_ask {o : GraphicsOp} (h : ∀ address value, o ≠ .store32 address value) :
    Storeless (Graphics.ask o) := Prog.asksOnly_once h

theorem storeless_print (fmt : String) (va : List Arg) : Storeless (Graphics.print fmt va) :=
  Prog.avoids_bind (storeless_ask fun _ _ => nofun) fun _ => trivial

theorem storeless_considerMode (desiredMode : BitVec 32) (modeIdx : Nat) :
    Storeless (considerMode desiredMode modeIdx) := by
  have hquery : ∀ f : BitVec 32 × BitVec 32 → Prog Graphics (BitVec 32),
      (∀ size, Storeless (f size)) →
        Storeless (Graphics.ask (.queryMode (BitVec.ofNat 32 modeIdx)) >>= f) :=
    fun f hf => Prog.avoids_bind (storeless_ask fun _ _ => nofun) hf
  unfold considerMode
  split
  all_goals
    try refine Prog.avoids_bind (storeless_print _ _) fun _ => ?_
    refine hquery _ fun size => Prog.avoids_bind (storeless_print _ _) fun _ => ?_
    split <;> trivial

theorem storeless_findMode (maxMode : BitVec 32) : Storeless (findMode maxMode) :=
  Prog.avoids_foldlM (I := fun _ => True)
    (fun desired _ modeIdx _ => ⟨storeless_considerMode desired modeIdx, fun _ _ => trivial⟩)
    trivial

theorem storeless_setDesiredMode (desiredMode : BitVec 32) :
    Storeless (setDesiredMode desiredMode) := by
  unfold setDesiredMode
  split
  · refine Prog.avoids_bind (storeless_print _ _) fun _ => ?_
    exact Prog.avoids_bind (storeless_ask fun _ _ => nofun) fun _ => trivial
  · trivial

section Run

variable (g : GraphicsFirmware) (s : ProtocolMode)

theorem Graphics.exec_print (fmt : String) (va : List Arg) :
    (Graphics.print fmt va).exec g.device s = ((), s) := rfl

theorem Graphics.stores_print (fmt : String) (va : List Arg) :
    storesOf ((Graphics.print fmt va).asks g.device s) = [] := rfl

theorem Graphics.exec_mode :
    @Prog.exec Graphics (Option ProtocolMode) _ g.device (Graphics.ask .mode) s = (some s, s) := rfl

theorem Graphics.stores_mode :
    storesOf (@Prog.asks Graphics (Option ProtocolMode) _ g.device (Graphics.ask .mode) s) = [] :=
  rfl

theorem derefProtocolMode_some : derefProtocolMode (some s) = .ok s := rfl

theorem exec_considerMode (desired : BitVec 32) (modeIdx : Nat) :
    (considerMode desired modeIdx).exec g.device s =
      (if g.query (BitVec.ofNat 32 modeIdx) = (640, 480) then BitVec.ofNat 32 modeIdx
       else desired, s) := by
  have hquery : (Graphics.ask (.queryMode (BitVec.ofNat 32 modeIdx))).exec g.device s =
      (g.query (BitVec.ofNat 32 modeIdx), s) := rfl
  unfold considerMode
  split
  all_goals
    simp only [Prog.exec_bind, Graphics.exec_print, hquery]
    rcases g.query (BitVec.ofNat 32 modeIdx) with ⟨modeWidth, modeHeight⟩
    simp only [Prod.mk.injEq]
    split <;> rfl

/-- The search for the mode finds the desired one and leaves the mode as it is. -/
theorem exec_findMode (maxMode : BitVec 32) :
    (findMode maxMode).exec g.device s = (g.desiredMode maxMode, s) :=
  Prog.exec_foldlM_of_keeps g.device (exec_considerMode g s) _ _

theorem exec_setDesiredMode :
    (setDesiredMode (g.desiredMode s.m_maxMode)).exec g.device s = ((), g.activeMode s) := by
  unfold setDesiredMode GraphicsFirmware.activeMode
  split <;> rfl

/-- `mandelbrot`'s stores, in the order of its loops. -/
def drawnPixels (colour : Colour) (width height : BitVec 32) (frameBuffer : BitVec 64) :
    List (BitVec 64 × BitVec 32) :=
  pixelGrid width.toInt.toNat height.toInt.toNat (pixelAddress width frameBuffer) fun x y =>
    colour width height (BitVec.ofNat 32 x) (BitVec.ofNat 32 y)

theorem run_mandelbrot (colour : Colour) (width height : BitVec 32) (frameBuffer : BitVec 64) :
    (mandelbrot colour width height frameBuffer).exec g.device s = ((), s) ∧
      storesOf ((mandelbrot colour width height frameBuffer).asks g.device s) =
        drawnPixels colour width height frameBuffer := by
  have hrow := fun y => Prog.run_forM_of_keeps g.device (s := s)
    (l := List.range width.toInt.toNat) (f := fun x =>
      Graphics.ask (.store32 (pixelAddress width frameBuffer x y)
        (colour width height (BitVec.ofNat 32 x) (BitVec.ofNat 32 y)))) fun x _ => rfl
  obtain ⟨hexec, hasks⟩ := Prog.run_forM_of_keeps g.device (s := s)
    (l := List.range height.toInt.toNat) fun y _ => (hrow y).1
  refine ⟨hexec, ?_⟩
  unfold mandelbrot
  rw [hasks]
  unfold storesOf drawnPixels pixelGrid
  rw [List.filterMap_flatMap]
  refine List.flatMap_congr fun y _ => ?_
  rw [(hrow y).2, List.filterMap_flatMap, ← List.flatMap_pure_eq_map]
  rfl

/-- **The whole function**: the desired mode is set, and drawn with its resolution from the base
    of the mode before. -/
theorem run_do_graphics (colour : Colour) :
    (do_graphics colour).run.exec g.device s = (.ok (), g.activeMode s) ∧
      storesOf ((do_graphics colour).run.asks g.device s) =
        drawnPixels colour (g.activeMode s).m_info.m_horizontalResolution
          (g.activeMode s).m_info.m_verticalResolution s.m_frameBufferBase := by
  have hlocate : (Graphics.ask .locateProtocol).exec g.device s = (0, s) := rfl
  have hlocateStores : storesOf ((Graphics.ask .locateProtocol).asks g.device s) = [] := rfl
  have hfind := (storeless_findMode s.m_maxMode).storesOf g
  have hset := (storeless_setDesiredMode (g.desiredMode s.m_maxMode)).storesOf g
  unfold do_graphics
  rw [run_liftM_bind, Prog.exec_bind, Prog.asks_bind, storesOf_append, hlocate, hlocateStores]
  dsimp only
  rw [if_neg (by decide)]
  simp only [run_liftM_bind, run_liftM, Prog.exec_bind, Prog.asks_bind, storesOf_append,
    Graphics.exec_print, Graphics.stores_print, Graphics.exec_mode, Graphics.stores_mode,
    derefProtocolMode_some, liftM_ok_bind, exec_findMode, hfind, exec_setDesiredMode, hset,
    Option.getD_some, (run_mandelbrot g _ _ _ _ _).1, (run_mandelbrot g _ _ _ _ _).2,
    Prog.exec_ret, Prog.asks_ret, List.nil_append]
  exact ⟨trivial, List.append_nil _⟩

end Run

/-! ## 4. Where the pixels are -/

theorem mem_pixelGrid {columns rows : Nat} {address : Nat → Nat → BitVec 64}
    {colour : Nat → Nat → BitVec 32} {p : BitVec 64 × BitVec 32} :
    p ∈ pixelGrid columns rows address colour ↔
      ∃ x < columns, ∃ y < rows, (address x y, colour x y) = p := by
  simp only [pixelGrid, List.mem_flatMap, List.mem_map, List.mem_range]
  constructor
  · rintro ⟨y, hy, x, hx, rfl⟩
    exact ⟨x, hx, y, hy, rfl⟩
  · rintro ⟨x, hx, y, hy, rfl⟩
    exact ⟨y, hy, x, hx, rfl⟩

theorem pixelGrid_no_columns (rows : Nat) (address : Nat → Nat → BitVec 64)
    (colour : Nat → Nat → BitVec 32) : pixelGrid 0 rows address colour = [] :=
  List.flatMap_eq_nil_iff.mpr fun _ _ => rfl

theorem pixelGrid_congr {columns rows : Nat} {address address' : Nat → Nat → BitVec 64}
    {colour : Nat → Nat → BitVec 32}
    (h : ∀ x < columns, ∀ y < rows, address x y = address' x y) :
    pixelGrid columns rows address colour = pixelGrid columns rows address' colour := by
  refine List.flatMap_congr fun y hy => List.map_congr_left fun x hx => ?_
  rw [h x (List.mem_range.mp hx) y (List.mem_range.mp hy)]

/-- The colour that only pixel (x, y) has. -/
def onlyAt (x y : Nat) : Colour := fun _ _ x' y' =>
  if x' = BitVec.ofNat 32 x ∧ y' = BitVec.ofNat 32 y then 1 else 0

/-- **A colour of its own shows where a pixel went.** -/
theorem place_of_perm {width height : BitVec 32} {columns rows : Nat}
    {address address' : Nat → Nat → BitVec 64} (hcolumns : columns ≤ width.toNat)
    (hrows : rows ≤ height.toNat)
    (hperm : ∀ colour : Colour,
      (pixelGrid columns rows address fun x y =>
          colour width height (BitVec.ofNat 32 x) (BitVec.ofNat 32 y)).Perm
        (pixelGrid width.toNat height.toNat address' fun x y =>
          colour width height (BitVec.ofNat 32 x) (BitVec.ofNat 32 y)))
    {x y : Nat} (hx : x < width.toNat) (hy : y < height.toNat) :
    (x < columns ∧ y < rows) ∧ address x y = address' x y := by
  have hwidth := width.isLt
  have hheight := height.isLt
  have hown : onlyAt x y width height (BitVec.ofNat 32 x) (BitVec.ofNat 32 y) = 1 :=
    if_pos ⟨rfl, rfl⟩
  obtain ⟨x', hx', y', hy', hfound⟩ := mem_pixelGrid.mp
    ((hperm (onlyAt x y)).mem_iff.mpr (mem_pixelGrid.mpr ⟨x, hx, y, hy, rfl⟩))
  rw [hown, Prod.mk.injEq] at hfound
  obtain ⟨haddress, hcolour⟩ := hfound
  by_cases hsame : BitVec.ofNat 32 x' = BitVec.ofNat 32 x ∧ BitVec.ofNat 32 y' = BitVec.ofNat 32 y
  · have hxx : x' = x := by
      have h := congrArg BitVec.toNat hsame.1
      rwa [BitVec.toNat_ofNat, BitVec.toNat_ofNat, Nat.mod_eq_of_lt (by omega),
        Nat.mod_eq_of_lt (by omega)] at h
    have hyy : y' = y := by
      have h := congrArg BitVec.toNat hsame.2
      rwa [BitVec.toNat_ofNat, BitVec.toNat_ofNat, Nat.mod_eq_of_lt (by omega),
        Nat.mod_eq_of_lt (by omega)] at h
    rw [← hxx, ← hyy]
    refine ⟨⟨hx', hy'⟩, ?_⟩
    rw [haddress, hxx, hyy]
  · rw [onlyAt, if_neg hsame] at hcolour
    exact absurd hcolour (by decide)

/-- The loop counts a resolution that is an `int` of its own value, else nothing. -/
theorem toInt_toNat_eq (resolution : BitVec 32) :
    resolution.toInt.toNat = if resolution.toNat < 2 ^ 31 then resolution.toNat else 0 := by
  have hlt := resolution.isLt
  rw [BitVec.toInt_eq_toNat_cond]
  split <;> split <;> omega

theorem toInt_toNat_le (resolution : BitVec 32) :
    resolution.toInt.toNat ≤ resolution.toNat := by
  rw [toInt_toNat_eq]
  split <;> omega

theorem lt_of_toInt_toNat_pos {resolution : BitVec 32} (h : 0 < resolution.toInt.toNat) :
    resolution.toNat < 2 ^ 31 := by
  by_contra hge
  rw [toInt_toNat_eq, if_neg hge] at h
  exact absurd h (Nat.lt_irrefl 0)

section Index

variable (frameBuffer : BitVec 64)

/-- An `int` index that is not negative, in bytes. -/
theorem signExtend_mul_four {n : Nat} (h : n < 2 ^ 31) :
    (BitVec.ofNat 32 n).signExtend 64 * 4 = BitVec.ofNat 64 (4 * n) := by
  have hmsb : (BitVec.ofNat 32 n).msb = false := by
    rw [BitVec.msb_eq_false_iff_two_mul_lt, BitVec.toNat_ofNat, Nat.mod_eq_of_lt (by omega)]
    omega
  have hbytes : (4 : BitVec 64).toNat = 4 := rfl
  rw [BitVec.signExtend_eq_setWidth_of_msb_false hmsb]
  refine BitVec.eq_of_toNat_eq ?_
  rw [BitVec.toNat_mul, BitVec.toNat_setWidth, BitVec.toNat_ofNat, BitVec.toNat_ofNat, hbytes]
  omega

/-- The address of a pixel, its index computed without bounds. -/
theorem pixelAddress_index (width : BitVec 32) (x y : Nat) :
    pixelAddress width frameBuffer x y =
      frameBuffer + (BitVec.ofNat 32 (x + width.toNat * y)).signExtend 64 * 4 := by
  rw [pixelAddress, BitVec.ofNat_add, BitVec.ofNat_mul, BitVec.ofNat_toNat, BitVec.setWidth_eq]

theorem pixelAddress_eq (width : BitVec 32) {x y : Nat} (h : x + width.toNat * y < 2 ^ 31) :
    pixelAddress width frameBuffer x y =
      frameBuffer + BitVec.ofNat 64 (4 * (x + width.toNat * y)) := by
  rw [pixelAddress_index, signExtend_mul_four h]

end Index

section Places

variable {frameBuffer base : BitVec 64} {width height stride : BitVec 32}

/-- The index of the last pixel is an `int` and the rows follow each other without a gap: every
    index counts the scan lines. -/
theorem pixelAddress_linear (hint : width.toNat * height.toNat ≤ 2 ^ 31)
    (hstride : height.toNat = 1 ∨ stride = width) {x y : Nat} (hx : x < width.toNat)
    (hy : y < height.toNat) :
    pixelAddress width base x y = base + BitVec.ofNat 64 (4 * (y * stride.toNat + x)) := by
  have hlt : x + width.toNat * y < 2 ^ 31 := by
    have hrow : width.toNat * (y + 1) ≤ width.toNat * height.toNat := Nat.mul_le_mul_left _ hy
    rw [Nat.mul_add] at hrow
    omega
  have hplace : x + width.toNat * y = y * stride.toNat + x := by
    rcases hstride with hone | rfl
    · rw [show y = 0 by omega]
      omega
    · rw [Nat.mul_comm, Nat.add_comm]
  rw [pixelAddress_eq base width hlt, hplace]

variable (hwidth : 0 < width.toNat) (hheight : 0 < height.toNat)
  (h : ∀ x < width.toNat, ∀ y < height.toNat, pixelAddress width frameBuffer x y =
    base + BitVec.ofNat 64 (4 * (y * stride.toNat + x)))

include hwidth hheight h

/-- The first pixel shows the base. -/
theorem base_of_places : frameBuffer = base := by
  have hfirst := h 0 hwidth 0 hheight
  rw [pixelAddress_eq frameBuffer width (by omega)] at hfirst
  simpa using hfirst

/-- Every pixel's index is the one of its scan line. -/
theorem index_of_places {x y : Nat} (hx : x < width.toNat) (hy : y < height.toNat) :
    (BitVec.ofNat 32 (x + width.toNat * y)).signExtend 64 * 4 =
      BitVec.ofNat 64 (4 * (y * stride.toNat + x)) := by
  have hxy := h x hx y hy
  rw [pixelAddress_index, base_of_places hwidth hheight h] at hxy
  exact BitVec.add_right_inj _ |>.mp hxy

/-- The second row's first pixel shows the scan line's length. -/
theorem stride_of_places (hwsmall : width.toNat < 2 ^ 31) :
    height.toNat = 1 ∨ stride = width := by
  by_cases hone : height.toNat = 1
  · exact .inl hone
  right
  have hsecond := index_of_places hwidth hheight h hwidth (y := 1) (by omega)
  have hstrideLt := stride.isLt
  rw [signExtend_mul_four (by omega)] at hsecond
  have hbytes := congrArg BitVec.toNat hsecond
  rw [BitVec.toNat_ofNat, BitVec.toNat_ofNat] at hbytes
  refine BitVec.eq_of_toNat_eq ?_
  omega

/-- The pixel of index `2 ^ 31`, if there were one, would be stored below the base. -/
theorem int_of_places (hwsmall : width.toNat < 2 ^ 31) :
    width.toNat * height.toNat ≤ 2 ^ 31 := by
  by_contra hmany
  have hdiv := Nat.div_add_mod (2 ^ 31) width.toNat
  have hy : 2 ^ 31 / width.toNat < height.toNat := by
    refine (Nat.div_lt_iff_lt_mul hwidth).mpr ?_
    rw [Nat.mul_comm]
    omega
  have hlast := index_of_places hwidth hheight h (Nat.mod_lt (2 ^ 31) hwidth) hy
  rcases stride_of_places hwidth hheight h hwsmall with hone | rfl
  · rw [hone] at hmany
    omega
  · rw [Nat.add_comm (2 ^ 31 % _), hdiv, Nat.mul_comm (_ / _), hdiv] at hlast
    exact absurd hlast (by decide)

end Places

/-- **Each pixel is drawn in its place exactly when** the base is the mode's, the index stays an
    `int`, and the rows, if there are two, follow each other without a gap. -/
theorem addresses_eq_iff (frameBuffer : BitVec 64) (active : ProtocolMode)
    (hwidth : 0 < active.m_info.m_horizontalResolution.toNat)
    (hheight : 0 < active.m_info.m_verticalResolution.toNat)
    (hwsmall : active.m_info.m_horizontalResolution.toNat < 2 ^ 31) :
    (∀ x < active.m_info.m_horizontalResolution.toNat,
      ∀ y < active.m_info.m_verticalResolution.toNat,
        pixelAddress active.m_info.m_horizontalResolution frameBuffer x y =
          visibleAddress active x y) ↔
      active.m_info.m_horizontalResolution.toNat *
          active.m_info.m_verticalResolution.toNat ≤ 2 ^ 31 ∧
        frameBuffer = active.m_frameBufferBase ∧ (active.m_info.m_verticalResolution.toNat = 1 ∨
          active.m_info.m_pixelsPerScanline = active.m_info.m_horizontalResolution) := by
  unfold visibleAddress
  constructor
  · intro h
    exact ⟨int_of_places hwidth hheight h hwsmall, base_of_places hwidth hheight h,
      stride_of_places hwidth hheight h hwsmall⟩
  · rintro ⟨hint, rfl, hstride⟩ x hx y hy
    exact pixelAddress_linear hint hstride hx hy

/-! ## 5. When the screen is drawn -/

/-- The mode has no pixels; or its base is the one drawn from, both resolutions and the index of
    the last pixel are `int`s, and its rows, if there are two, follow each other without a gap. -/
def ProtocolMode.Linear (mode : ProtocolMode) (frameBuffer : BitVec 64) : Prop :=
  mode.m_info.m_horizontalResolution.toNat = 0 ∨ mode.m_info.m_verticalResolution.toNat = 0 ∨
    (mode.m_info.m_horizontalResolution.toNat < 2 ^ 31 ∧
      mode.m_info.m_verticalResolution.toNat < 2 ^ 31 ∧
      mode.m_info.m_horizontalResolution.toNat * mode.m_info.m_verticalResolution.toNat ≤ 2 ^ 31 ∧
      frameBuffer = mode.m_frameBufferBase ∧
      (mode.m_info.m_verticalResolution.toNat = 1 ∨
        mode.m_info.m_pixelsPerScanline = mode.m_info.m_horizontalResolution))

section Draws

variable {g : GraphicsFirmware} {before : ProtocolMode}

/-- What the drawing owes, said of the pixels alone. -/
theorem drawsVisible_iff : DrawsVisible g before ↔ ∀ colour,
    (drawnPixels colour (g.activeMode before).m_info.m_horizontalResolution
      (g.activeMode before).m_info.m_verticalResolution before.m_frameBufferBase).Perm
        (visiblePixels colour (g.activeMode before)) := by
  refine forall_congr' fun colour => ?_
  obtain ⟨hexec, hstores⟩ := run_do_graphics g before colour
  rw [hexec, hstores]

/-- **A screen that is drawn has each pixel in its place**, and both resolutions are counted. -/
theorem DrawsVisible.place (h : DrawsVisible g before) {x y : Nat}
    (hx : x < (g.activeMode before).m_info.m_horizontalResolution.toNat)
    (hy : y < (g.activeMode before).m_info.m_verticalResolution.toNat) :
    (x < (g.activeMode before).m_info.m_horizontalResolution.toInt.toNat ∧
        y < (g.activeMode before).m_info.m_verticalResolution.toInt.toNat) ∧
      pixelAddress (g.activeMode before).m_info.m_horizontalResolution before.m_frameBufferBase
          x y =
        visibleAddress (g.activeMode before) x y :=
  place_of_perm (toInt_toNat_le _) (toInt_toNat_le _) (drawsVisible_iff.mp h) hx hy

end Draws

/-- **The visible pixels are drawn exactly when** the active mode has none, or its base is the one
    from before the mode was set, its indices stay `int`s and its scan lines are as long as its
    rows. For every firmware and every mode it starts in. -/
theorem graphics_draws_iff (g : GraphicsFirmware) (before : ProtocolMode) :
    DrawsVisible g before ↔ (g.activeMode before).Linear before.m_frameBufferBase := by
  constructor
  · intro h
    by_cases hw : (g.activeMode before).m_info.m_horizontalResolution.toNat = 0
    · exact .inl hw
    by_cases hh : (g.activeMode before).m_info.m_verticalResolution.toNat = 0
    · exact .inr (.inl hh)
    have hwpos := Nat.pos_of_ne_zero hw
    have hhpos := Nat.pos_of_ne_zero hh
    obtain ⟨⟨hwidth, hheight⟩, _⟩ := h.place hwpos hhpos
    have hwsmall := lt_of_toInt_toNat_pos hwidth
    have hhsmall := lt_of_toInt_toNat_pos hheight
    refine .inr (.inr ⟨hwsmall, hhsmall, ?_⟩)
    exact (addresses_eq_iff _ _ hwpos hhpos hwsmall).mp fun x hx y hy => (h.place hx hy).2
  · intro h
    refine drawsVisible_iff.mpr fun colour => ?_
    unfold drawnPixels visiblePixels
    rcases h with hw | hh | ⟨hwsmall, hhsmall, hplaces⟩
    · have hloop := toInt_toNat_le (g.activeMode before).m_info.m_horizontalResolution
      rw [hw] at hloop ⊢
      rw [Nat.le_zero.mp hloop, pixelGrid_no_columns, pixelGrid_no_columns]
    · have hloop := toInt_toNat_le (g.activeMode before).m_info.m_verticalResolution
      rw [hh] at hloop ⊢
      rw [Nat.le_zero.mp hloop]
      exact .refl _
    · rw [toInt_toNat_eq, toInt_toNat_eq, if_pos hwsmall, if_pos hhsmall]
      refine .of_eq (pixelGrid_congr fun x hx y hy => ?_)
      exact (addresses_eq_iff _ _ (Nat.zero_lt_of_lt hx) (Nat.zero_lt_of_lt hy) hwsmall).mpr
        hplaces x hx y hy

/-- A firmware whose only mode is 640x480 with scan lines of 1024 pixels. -/
def longLines : GraphicsFirmware where
  query _ := (640, 480)
  set _ mode := (0, mode)

def longLinesMode : ProtocolMode where
  m_maxMode := 1
  m_mode := 0
  m_frameBufferBase := 0x80000000
  m_frameBufferSize := 1966080
  m_info := ⟨640, 480, 1024⟩

/-- The second row is drawn 640 pixels after the first, in the padding of its scan line. -/
theorem graphics_ignores_scanline : ¬ DrawsVisible longLines longLinesMode := by
  intro h
  have hplace := (h.place (x := 0) (y := 1) (by decide) (by decide)).2
  exact absurd hplace (by decide)

end TinyOS64
