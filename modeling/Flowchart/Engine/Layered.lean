import Flowchart.Engine.Route
import Flowchart.Engine.Sweep

/-!
# The Layered Engine

The engine that lays a flowchart out from top to bottom. Boxes get slots, a
layer is as high as its highest box, boxes are centered in their slots and then
kept clear of the fixed ones, and links are routed between the boxes where they
ended up. The size of the drawing is what it takes to show every box and every
route, with padding.

## Main definitions

* `Layered.positions`: Where every box goes.
* `Layered.routes`: The routes of all links.
* `Layered.extent`: The size of the drawing.
* `Engine.layered`: The engine, for any layering.
-/

namespace Flowchart

namespace Engine

namespace Layered

/-- The height of a layer, which is that of its highest box. -/
def layerHeight (r : Request) (slots : Slots) (rank : Nat) : Float32 :=
  r.items.zipIdx.foldl (fun height (item, i) =>
    match slots.slotOf i with
    | some slot => if slot.rank = rank then Single.max height item.size.height else height
    | none => height) 0

/-- Where layers of the given heights start, the first of them at `top`. -/
def tops (spacing : Float32) : Float32 → List Float32 → List Float32
  | _, [] => []
  | top, height :: heights => top :: tops spacing (top + (height + spacing)) heights

/-- The vertical middle of each layer. -/
def middles (r : Request) (slots : Slots) (options : Options) : List Float32 :=
  let heights := (List.range (Sweep.height slots)).map (layerHeight r slots)
  ((tops options.layerSpacing options.padding heights).zip heights).map
    fun (top, height) => top + height / 2

/-- Where a box goes that nothing has to be kept clear of. -/
def rawPosition (slots : Slots) (middles : List Float32) (item : Item) (i : Nat) :
    Except Failure Point :=
  match item.fixed, slots.slotOf i with
  | some corner, _ => .ok corner
  | none, some slot =>
      .ok (Box.cornerAround ⟨slot.center, middles.getD slot.rank 0⟩ item.size)
  | none, none => .error (.missingNode item.id)

/-- Where every box goes. -/
def positions (r : Request) (slots : Slots) (options : Options) :
    Except Failure (List Point) := do
  let middles := middles r slots options
  let raw ← r.items.zipIdx.mapM fun (item, i) => rawPosition slots middles item i
  return Sweep.clear r slots options.nodeSpacing raw

/-- The boxes where they were placed. -/
def boxes (r : Request) (positions : List Point) : List Box :=
  (r.items.zip positions).map fun (item, position) => .ofTopLeft position item.size

/-- The routes of all links. -/
def routes (r : Request) (links : List Ends) (boxes : List Box) (options : Options) :
    List Route :=
  (r.links.zip links).map fun (link, source, target) =>
    let boxAt (i : Nat) := boxes.getD i ⟨0, 0, 0, 0⟩
    let path := Path.ofBoxes options.simplifyBends (source == target) (boxAt source) (boxAt target)
    ⟨link.id, path.start, path.bends, path.finish⟩

/-- The box of a point. -/
def pointBox (p : Point) : Box := .ofTopLeft p .zero

/-- The size of the drawing. A drawing of nothing has no size. -/
def extent (boxes : List Box) (routes : List Route) (padding : Float32) : Size :=
  match boxes ++ (routes.flatMap Route.points).map pointBox with
  | [] => .zero
  | b :: bs =>
      let all := bs.foldl Box.join b
      ⟨all.maxX + padding, all.maxY + padding⟩

/-- Where boxes and links go. -/
def plan (layering : Layering) (options : Options) (r : Request) : Except Failure Plan := do
  let links ← r.ends?
  let slots ← Slots.ofRequest layering r links options
  let positions ← positions r slots options
  let boxes := boxes r positions
  let routes := routes r links boxes options
  return ⟨(r.items.zip positions).map fun (item, position) => ⟨item.id, position, item.size⟩,
    routes, extent boxes routes options.padding⟩

end Layered

/-- The engine that lays a flowchart out from top to bottom. -/
def layered (layering : Layering) : Engine := fun options r =>
  match Layered.plan layering options r with
  | .ok plan => .planned plan
  | .error failure => .failed failure

end Engine

end Flowchart
