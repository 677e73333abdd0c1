import TuneScript.Synth.Waveform
import TuneScript.Value.Basic

/-!
The instruments that come with each palette. A configuration names a waveform and gives
the four stages of the envelope as shares of the note's length; overtones, vibrato,
breath and a level are optional.
-/

namespace TuneScript.Presets

def soft : List (String × Value) := [
  ("piano", .record [
    ("waveform", .text "soft_piano"), ("attack", .float 0.08), ("decay", .float 0.5),
    ("sustain", .float 0.5), ("release", .float 1.0),
    ("harmonics", .list [.float 1.0, .float 0.12, .float 0.04, .float 0.015, .float 0.008]),
    ("volume_scale", .float 0.6)]),
  ("violin", .record [
    ("waveform", .text "soft_violin"), ("attack", .float 0.15), ("decay", .float 0.3),
    ("sustain", .float 0.65), ("release", .float 0.4),
    ("harmonics", .list [.float 1.0, .float 0.25, .float 0.12, .float 0.06, .float 0.03]),
    ("vibrato", .record [("rate", .float 4.5), ("depth", .float 0.015)]),
    ("volume_scale", .float 0.5)]),
  ("guitar", .record [
    ("waveform", .text "soft_plucked"), ("attack", .float 0.02), ("decay", .float 1.2),
    ("sustain", .float 0.2), ("release", .float 1.5),
    ("harmonics", .list [.float 1.0, .float 0.2, .float 0.08, .float 0.04, .float 0.02]),
    ("volume_scale", .float 0.4)]),
  ("drums", .record [
    ("waveform", .text "soft_percussion"), ("attack", .float 0.002), ("decay", .float 0.15),
    ("sustain", .float 0.0), ("release", .float 0.3), ("volume_scale", .float 0.3)]),
  ("flute", .record [
    ("waveform", .text "soft_sine"), ("attack", .float 0.08), ("decay", .float 0.15),
    ("sustain", .float 0.85), ("release", .float 0.3),
    ("harmonics", .list [.float 1.0, .float 0.06, .float 0.02, .float 0.008]),
    ("breath", .record [("noise", .float 0.02)]), ("volume_scale", .float 0.45)]),
  ("trumpet", .record [
    ("waveform", .text "soft_brass"), ("attack", .float 0.08), ("decay", .float 0.2),
    ("sustain", .float 0.7), ("release", .float 0.3),
    ("harmonics", .list [.float 1.0, .float 0.4, .float 0.2, .float 0.1, .float 0.05, .float 0.025]),
    ("volume_scale", .float 0.5)]),
  ("saxophone", .record [
    ("waveform", .text "soft_reed"), ("attack", .float 0.12), ("decay", .float 0.25),
    ("sustain", .float 0.75), ("release", .float 0.4),
    ("harmonics", .list [.float 1.0, .float 0.35, .float 0.18, .float 0.08, .float 0.04]),
    ("volume_scale", .float 0.55)]),
  ("cello", .record [
    ("waveform", .text "soft_cello"), ("attack", .float 0.2), ("decay", .float 0.4),
    ("sustain", .float 0.75), ("release", .float 0.6),
    ("harmonics", .list [.float 1.0, .float 0.4, .float 0.2, .float 0.1, .float 0.05]),
    ("vibrato", .record [("rate", .float 3.5), ("depth", .float 0.02)]),
    ("volume_scale", .float 0.6)]),
  ("bass", .record [
    ("waveform", .text "soft_bass"), ("attack", .float 0.05), ("decay", .float 0.6),
    ("sustain", .float 0.55), ("release", .float 1.0),
    ("harmonics", .list [.float 1.0, .float 0.5, .float 0.15, .float 0.05, .float 0.02]),
    ("volume_scale", .float 0.7)]),
  ("organ", .record [
    ("waveform", .text "soft_organ"), ("attack", .float 0.03), ("decay", .float 0.05),
    ("sustain", .float 0.8), ("release", .float 0.2),
    ("harmonics", .list [.float 1.0, .float 0.25, .float 0.5, .float 0.15, .float 0.4, .float 0.1, .float 0.3]),
    ("volume_scale", .float 0.4)])]

def plain : List (String × Value) := [
  ("piano", .record [
    ("waveform", .text "complex_piano"), ("attack", .float 0.01), ("decay", .float 0.3),
    ("sustain", .float 0.7), ("release", .float 0.5),
    ("harmonics", .list [.float 1.0, .float 0.3, .float 0.1, .float 0.05, .float 0.02])]),
  ("violin", .record [
    ("waveform", .text "sawtooth"), ("attack", .float 0.1), ("decay", .float 0.2),
    ("sustain", .float 0.8), ("release", .float 0.3),
    ("harmonics", .list [.float 1.0, .float 0.5, .float 0.3, .float 0.2, .float 0.1]),
    ("vibrato", .record [("rate", .int 5), ("depth", .float 0.02)])]),
  ("guitar", .record [
    ("waveform", .text "plucked"), ("attack", .float 0.01), ("decay", .float 0.8),
    ("sustain", .float 0.3), ("release", .float 1.0),
    ("harmonics", .list [.float 1.0, .float 0.4, .float 0.2, .float 0.1, .float 0.05])]),
  ("drums", .record [
    ("waveform", .text "noise"), ("attack", .float 0.001), ("decay", .float 0.1),
    ("sustain", .float 0.0), ("release", .float 0.2), ("pitch_envelope", .bool true)]),
  ("flute", .record [
    ("waveform", .text "sine"), ("attack", .float 0.05), ("decay", .float 0.1),
    ("sustain", .float 0.9), ("release", .float 0.2),
    ("harmonics", .list [.float 1.0, .float 0.1, .float 0.02, .float 0.01]),
    ("breath", .record [("noise", .float 0.05)])]),
  ("trumpet", .record [
    ("waveform", .text "brass"), ("attack", .float 0.05), ("decay", .float 0.1),
    ("sustain", .float 0.8), ("release", .float 0.2),
    ("harmonics", .list [.float 1.0, .float 0.8, .float 0.6, .float 0.4, .float 0.2, .float 0.1])]),
  ("saxophone", .record [
    ("waveform", .text "reed"), ("attack", .float 0.08), ("decay", .float 0.2),
    ("sustain", .float 0.8), ("release", .float 0.3),
    ("harmonics", .list [.float 1.0, .float 0.6, .float 0.4, .float 0.3, .float 0.2])]),
  ("cello", .record [
    ("waveform", .text "sawtooth"), ("attack", .float 0.15), ("decay", .float 0.3),
    ("sustain", .float 0.8), ("release", .float 0.4),
    ("harmonics", .list [.float 1.0, .float 0.7, .float 0.5, .float 0.3, .float 0.2]),
    ("vibrato", .record [("rate", .int 4), ("depth", .float 0.03)])]),
  ("bass", .record [
    ("waveform", .text "sine_rich"), ("attack", .float 0.02), ("decay", .float 0.4),
    ("sustain", .float 0.6), ("release", .float 0.8),
    ("harmonics", .list [.float 1.0, .float 0.8, .float 0.3, .float 0.1, .float 0.05])]),
  ("organ", .record [
    ("waveform", .text "organ"), ("attack", .float 0.01), ("decay", .float 0.0),
    ("sustain", .float 1.0), ("release", .float 0.1),
    ("harmonics", .list [.float 1.0, .float 0.5, .float 1.0, .float 0.3, .float 0.8, .float 0.2, .float 0.6])])]

/-- The instruments of a palette, in the order in which they are listed. -/
def ofPalette : Palette → List (String × Value)
  | .soft => soft
  | .plain => plain

end TuneScript.Presets
