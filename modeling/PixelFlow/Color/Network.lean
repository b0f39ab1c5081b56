import PixelFlow.Color

/-!
# Palettes that are learned

A picture of too many colors is given a palette by a network that learns from its pixels. The
network is a line of neurons, each of which stands for a color; it begins with grays from dark to
bright. A pixel draws the neuron that is nearest to it, and the neighbours of that neuron, towards
itself; how far, and how many neighbours, becomes less with time. Neurons that win often are put at
a disadvantage, so that all of them find something to do.

* `Network.learned`: the network after all pixels.
* `LearnedPalette.ofPixels`: its colors, sorted by their green.
* **`LearnedPalette.place`**: the place of a color that is near to a pixel.
-/

namespace PixelFlow

/-- A color of the network. -/
structure Neuron where
  red : Float
  green : Float
  blue : Float
  alpha : Float
  /-- How often it has been the nearest one, as a part of all times, of which later ones count
  more. -/
  frequency : Float
  /-- What is taken off its distance to a pixel. -/
  bias : Float

/-- Neurons in a line. -/
abbrev Network := Array Neuron

/-- The number of neurons, and of the colors of a palette. -/
def Network.size : Nat := 256

namespace Neuron

/-- The gray at a place of the line before anything is learned. The darkest ones are clear. -/
def initial (i : Nat) : Neuron :=
  let gray := Float.ofNat i * 256 / Float.ofNat Network.size
  ⟨gray, gray, gray, if i < 16 then 16 * Float.ofNat i else 255,
    1 / Float.ofNat Network.size, 0⟩

/-- The part of a frequency that one time counts for. -/
def share : Float := 1 / 1024

/-- What happens to a neuron each time. -/
def aged (n : Neuron) : Neuron :=
  let frequency := n.frequency - share * n.frequency
  { n with frequency := frequency, bias := n.bias + frequency }

/-- What happens besides to the nearest neuron. -/
def won (n : Neuron) : Neuron :=
  { n with frequency := n.frequency + share, bias := n.bias - 1 }

/-- Draw a neuron towards a color, by a part of the way. -/
def drawn (part : Float) (c : Color) (n : Neuron) : Neuron :=
  let toward (x : Float) (b : UInt8) : Float := x - part * (x - b.toFloat)
  { n with
    red := toward n.red c.red
    green := toward n.green c.green
    blue := toward n.blue c.blue
    alpha := toward n.alpha c.alpha }

/-- The distance to a color in blue and red. -/
def halfDistance (n : Neuron) (c : Color) : Float :=
  (n.blue - c.blue.toFloat).abs + (n.red - c.red.toFloat).abs

/-- The distance to a color. -/
def distance (n : Neuron) (c : Color) : Float :=
  n.halfDistance c + (n.green - c.green.toFloat).abs + (n.alpha - c.alpha.toFloat).abs

/-- A channel as a byte. -/
def rounded (x : Float) : UInt8 := if x < 0 then 0 else if x < 255 then x.round.toUInt8 else 255

/-- The color of a neuron. -/
def color (n : Neuron) : Color :=
  ⟨rounded n.red, rounded n.green, rounded n.blue, rounded n.alpha⟩

end Neuron

/-! ## Learning -/

/-- The nearest neuron so far, and the nearest one if biases count. -/
structure Contest where
  least : Float
  nearest : Nat
  leastBiased : Float
  winner : Nat

/-- Look at the neuron at a place. One that is far off in two channels already is passed over. -/
def Contest.consider (s : Contest) (c : Color) (i : Nat) (n : Neuron) : Contest :=
  let half := n.halfDistance c
  if half < s.least ∨ half < s.leastBiased + n.bias then
    let distance := n.distance c
    let s := if distance < s.least then { s with least := distance, nearest := i } else s
    if distance - n.bias < s.leastBiased then
      { s with leastBiased := distance - n.bias, winner := i }
    else s
  else s

/-- How fast a network learns. -/
structure Pace where
  /-- The part of the way to a pixel that its neuron is drawn, in 1024ths. -/
  strength : Nat
  /-- The distance up to which neighbours are drawn, in 64ths. -/
  reach : Nat

namespace Pace

def initial : Pace := ⟨1024, 64 * (Network.size / 8)⟩

/-- The pace a while later. -/
def slower (p : Pace) : Pace := ⟨p.strength - p.strength / 30, p.reach - p.reach / 30⟩

def part (p : Pace) : Float := Float.ofNat p.strength / 1024

/-- The distance up to which neighbours are drawn; none are if it is one. -/
def radius (p : Pace) : Nat := if p.reach / 64 ≤ 1 then 0 else p.reach / 64

end Pace

namespace Network

def initial : Network := Array.ofFn fun i : Fin size => Neuron.initial i

/-- The contest of all neurons for a color. -/
def contest (net : Network) (c : Color) : Contest :=
  let most : Float := 1 / 0
  (net.foldl (fun ((s, i) : Contest × Nat) n => (s.consider c i n, i + 1))
    (⟨most, 0, most, 0⟩, 0)).1

/-- Draw the neighbours of the neuron at a place, those that are nearer by a greater part of the
way. The neuron at the dark end of the line is no one's neighbour. -/
def drawNeighbours (net : Network) (part : Float) (radius i : Nat) (c : Color) : Network :=
  let square (n : Nat) : Float := Float.ofNat n * Float.ofNat n
  (List.range (radius - 1)).foldl (fun net q =>
    let draw := Neuron.drawn (part * (square radius - square q) / square radius) c
    let net := net.modify (i + 1 + q) draw
    if q + 1 < i then net.modify (i - 1 - q) draw else net) net

/-- Learn a color. -/
def learn (net : Network) (p : Pace) (c : Color) : Network :=
  let s := contest net c
  let aged := (net.map Neuron.aged).modify s.nearest Neuron.won
  drawNeighbours (aged.modify s.winner (Neuron.drawn p.part c)) p.part p.radius s.winner c

/-- How far apart the pixels are that follow each other in learning, so that the picture is gone
through in no plain order and yet completely. -/
def stride (count : Nat) : Nat := ([499, 491, 478, 503].find? fun n => count % n ≠ 0).getD 503

/-- How many pixels are learned at one pace. -/
def paceLength (count : Nat) : Nat := max 1 (count / (size / 2))

/-- The network that has learned all pixels. -/
def learned (pixels : Array Color) : Network :=
  let count := pixels.size
  let learnNext (s : Network × Pace) (i : Nat) : Network × Pace :=
    let net := learn s.1 s.2 (pixels.getD (i * stride count % count) default)
    (net, if (i + 1) % paceLength count = 0 then s.2.slower else s.2)
  ((List.range count).foldl learnNext (initial, .initial)).1

end Network

/-! ## The palette -/

/-- The colors of a network, sorted by their green. -/
structure LearnedPalette where
  colors : Array Color

namespace LearnedPalette

/-- Sort by green: each time the first one of those with the least green changes places with the
one in front, unless that has no more. -/
def sorted : Nat → List Color → List Color
  | n + 1, c :: rest =>
    match rest.map (·.green) |>.min? with
    | none => [c]
    | some least =>
      if least < c.green then
        let i := rest.findIdx (·.green == least)
        rest.getD i c :: sorted n (rest.set i c)
      else c :: sorted n rest
  | _, colors => colors

def ofNetwork (net : Network) : LearnedPalette :=
  let colors := net.toList.map Neuron.color
  ⟨(sorted colors.length colors).toArray⟩

/-- The palette for some pixels. -/
def ofPixels (pixels : Array Color) : LearnedPalette := ofNetwork (.learned pixels)

/-- The place in the middle of the colors with some green, or the first one beyond it. -/
def middle (p : LearnedPalette) (green : UInt8) : Nat :=
  let start := p.colors.countP (·.green < green)
  let stop := p.colors.countP (·.green ≤ green)
  (start + min stop (p.colors.size - 1)) / 2

/-- The square of the difference of two bytes. -/
def squared (a b : UInt8) : Nat :=
  let distance := ((a.toNat : Int) - b.toNat).natAbs
  distance * distance

def squaredDistance (a b : Color) : Nat :=
  squared a.green b.green + squared a.red b.red + squared a.blue b.blue + squared a.alpha b.alpha

/-- The nearest color so far to a given one, and the square of its distance. -/
structure Found where
  place : Nat
  distance : Nat

/-- Go on through places as long as their green alone is nearer than what is found. -/
def search (p : LearnedPalette) (c : Color) (f : Found) : List Nat → Found
  | [] => f
  | i :: rest =>
    let color := p.colors.getD i default
    if f.distance ≤ squared color.green c.green then f
    else
      let distance := squaredDistance color c
      p.search c (if distance < f.distance then ⟨i, distance⟩ else f) rest

/-- The elements of two lists by turns. -/
def alternating {α : Type} : List α → List α → List α
  | [], l => l
  | a :: k, l => a :: alternating l k
termination_by k l => k.length + l.length
decreasing_by simp only [List.length_cons]; omega

/-- The place of a color near to a given one, looked for from the colors of its green outwards, up
and down by turns, until one side is too far off. The first color of all is not reached from
above. -/
def place (p : LearnedPalette) (c : Color) : Nat :=
  let m := p.middle c.green
  let up := (List.range (p.colors.size - m)).map (m + ·)
  let down := ((List.range m).drop 1).reverse
  (p.search c ⟨m, 1 <<< 30⟩ (alternating up down)).place

def color (p : LearnedPalette) (place : Nat) : Color := p.colors.getD place default

end LearnedPalette

end PixelFlow
