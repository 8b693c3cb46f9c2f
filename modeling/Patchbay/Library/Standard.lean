import Patchbay.Library

/-!
# The standard libraries

What the standard libraries make visible: the two-letter prefixes of their parts, and the dimensions of
their boxes. A function of `k` parameters that processes `i` signals into `o` is the box `(k + i, o)`.
-/

namespace Patchbay

/-- The name of the library that stands for all standard libraries. -/
def standardName : String := "stdfaust.lib"

/-- Prefixes of the standard libraries, with the library each stands for. -/
def standardNamespaces : Table String String := ⟨
  [("aa", "aanl.lib"), ("an", "analyzers.lib"), ("ba", "basics.lib"), ("co", "compressors.lib"),
   ("de", "delays.lib"), ("dm", "demos.lib"), ("dx", "dx7.lib"), ("ef", "misceffects.lib"),
   ("en", "envelopes.lib"), ("fi", "filters.lib"), ("ho", "hoa.lib"), ("it", "interpolators.lib"),
   ("ma", "maths.lib"), ("mi", "physmodels.lib"), ("no", "noises.lib"), ("os", "oscillators.lib"),
   ("pf", "phaflangers.lib"), ("pm", "physmodels.lib"), ("re", "reverbs.lib"), ("ro", "routes.lib"),
   ("si", "signals.lib"), ("so", "soundfiles.lib"), ("sp", "spats.lib"), ("sy", "synths.lib"),
   ("ve", "vaeffects.lib"), ("wa", "webaudio.lib")],
  by decide +kernel⟩

/-- A box of a library that does not delay. -/
def LibrarySymbol.plain (inputs outputs : Nat) : LibrarySymbol := ⟨⟨inputs, outputs⟩, false⟩

/-- A box of a library that delays. -/
def LibrarySymbol.delaying (inputs outputs : Nat) : LibrarySymbol := ⟨⟨inputs, outputs⟩, true⟩

/-- Boxes of the standard libraries: dimension, and whether the box delays. -/
def standardSymbols : Table String LibrarySymbol := ⟨
  [("os.osc", .plain 1 1), ("os.oscsin", .plain 1 1), ("os.osccos", .plain 1 1), ("os.oscp", .plain 2 1),
   ("os.sawtooth", .plain 1 1), ("os.square", .plain 1 1), ("os.triangle", .plain 1 1), ("os.phasor", .plain 2 1),
   ("os.lf_saw", .plain 1 1), ("os.lf_sawpos", .plain 1 1), ("os.lf_squarewave", .plain 1 1),
   ("os.lf_triangle", .plain 1 1), ("os.lf_imptrain", .plain 1 1), ("os.imptrain", .plain 1 1),
   ("os.pulsetrain", .plain 2 1), ("fi.lowpass", .plain 3 1), ("fi.highpass", .plain 3 1),
   ("fi.bandpass", .plain 4 1), ("fi.resonlp", .plain 4 1), ("fi.resonhp", .plain 4 1), ("fi.resonbp", .plain 4 1),
   ("fi.lowpass6e", .plain 2 1), ("fi.highpass6e", .plain 2 1), ("fi.dcblocker", .plain 1 1),
   ("fi.pole", .delaying 2 1), ("fi.zero", .delaying 2 1), ("fi.integrator", .delaying 1 1),
   ("fi.fb_comb", .delaying 5 1), ("fi.ff_comb", .delaying 4 1), ("fi.allpass_comb", .delaying 4 1),
   ("fi.peak_eq", .plain 4 1), ("de.delay", .delaying 3 1), ("de.fdelay", .delaying 3 1),
   ("de.sdelay", .delaying 4 1), ("de.fdelaylti", .delaying 4 1), ("ba.db2linear", .plain 1 1),
   ("ba.linear2db", .plain 1 1), ("ba.sec2samp", .plain 1 1), ("ba.samp2sec", .plain 1 1),
   ("ba.midikey2hz", .plain 1 1), ("ba.hz2midikey", .plain 1 1), ("ba.tau2pole", .plain 1 1),
   ("ba.pole2tau", .plain 1 1), ("ba.time", .delaying 0 1), ("ba.impulse", .delaying 0 1), ("ba.beat", .delaying 1 1),
   ("ba.if", .plain 3 1), ("ba.sAndH", .delaying 2 1), ("ba.downSample", .delaying 2 1), ("ba.toggle", .delaying 1 1),
   ("ma.SR", .plain 0 1), ("ma.PI", .plain 0 1), ("ma.T", .plain 0 1), ("ma.EPSILON", .plain 0 1),
   ("ma.MAX", .plain 0 1), ("ma.MIN", .plain 0 1), ("ma.tanh", .plain 1 1), ("ma.signum", .plain 1 1),
   ("ma.frac", .plain 1 1), ("ma.inv", .plain 1 1), ("ma.neg", .plain 1 1), ("si.smoo", .delaying 1 1),
   ("si.smooth", .delaying 2 1), ("si.interpolate", .plain 3 1), ("si.polySmooth", .delaying 3 1),
   ("co.compressor_mono", .delaying 5 1), ("co.limiter_1176_R4_mono", .delaying 1 1), ("en.adsr", .delaying 5 1),
   ("en.ar", .delaying 3 1), ("en.asr", .delaying 4 1), ("en.adsre", .delaying 5 1),
   ("re.mono_freeverb", .delaying 5 1), ("re.stereo_freeverb", .delaying 6 2), ("re.zita_rev1_stereo", .delaying 8 2),
   ("ef.echo", .delaying 4 1), ("ef.cubicnl", .plain 3 1), ("ef.gate_mono", .delaying 5 1),
   ("ef.transpose", .delaying 4 1), ("no.noise", .delaying 0 1), ("no.pink_noise", .delaying 0 1),
   ("an.amp_follower", .delaying 2 1), ("an.rms_envelope_rect", .delaying 2 1), ("pf.flanger_mono", .delaying 6 1),
   ("pf.phaser2_mono", .delaying 10 1), ("sp.panner", .plain 2 2), ("ve.moog_vcf", .delaying 3 1),
   ("ve.wah4", .delaying 2 1), ("ve.crybaby", .delaying 2 1)],
  by decide +kernel⟩

/-- The standard libraries. -/
def standardLibrary : Library := ⟨standardName, standardNamespaces, standardSymbols⟩

/-- The dictionary used when callers give none. -/
def standardLibraries : Libraries := ⟨[(standardName, standardLibrary)], by simp⟩

/-- The prefix of a dotted name, if it is one of the standard libraries'. -/
def standardPrefix? (name : String) : Option String :=
  match dottedPrefix? name with
  | some head => if standardNamespaces.contains head then some head else none
  | none => none

end Patchbay
