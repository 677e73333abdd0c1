import TuneScript.Proofs.Failures

/-!
The two palettes against each other. They sound different, and show different lines; but a program
without rests whose instruments both know sets the same tempo, volume, instrument and variables
on both, and comes to the same end.
-/

namespace TuneScript

namespace Program

/-- A text that both palettes treat alike ends in the same way on new engines of the two, and
leaves the same settings and variables. -/
theorem palettes_agree {text : String} {p : Program} (hread : Reader.read .full text = .ok p)
    (hcommon : ∀ s : Stmt, s.Within p → s.Common) (format format' : Option (List Value)) :
    let soft := (Command.run .full text).respond (.built .soft (.working format))
    let plain := (Command.run .full text).respond (.built .plain (.working format'))
    plain.1 = soft.1 ∧ plain.2.store = soft.2.store ∧ plain.2.tempo = soft.2.tempo ∧
      plain.2.volume = soft.2.volume ∧ plain.2.instrument = soft.2.instrument := by
  have htwins : Engine.Twins Stmt.Common .plain (.built .soft (.working format))
      (.built .plain (.working format')) := Engine.twins_built .plain format format'
  obtain ⟨hafter, hsame, -⟩ :=
    p.respond_twins hread (fun _ _ h => h) (throughout_executed hcommon) htwins
  refine ⟨hsame, ?_⟩
  obtain ⟨htempo, hvolume, hinstrument, hstore⟩ := Settings.mk.inj hafter.settings
  exact ⟨hstore, htempo, hvolume, hinstrument⟩

theorem palettes_agree_call :
    let text := "fn f ( ) \x7b\nrefinst = violin\nnote C4 , 1\n\x7d\n" ++
      "loop 2 \x7b\nf ( )\n\x7d\ntempo 0\nnote D4"
    let soft := (Command.run .full text).respond (.built .soft .standard)
    let plain := (Command.run .full text).respond (.built .plain (.working none))
    plain.1 = soft.1 ∧ plain.2.store = soft.2.store ∧ plain.2.tempo = soft.2.tempo ∧
      plain.2.volume = soft.2.volume ∧ plain.2.instrument = soft.2.instrument := by
  intro text
  let p : Program := [
    .define "f" [] [.instrument "violin", .note (.single "C4") (some ⟨['1'], none⟩)],
    .loop ⟨['2'], none⟩ [.call "f" []], .tempo ⟨['0'], none⟩, .note (.single "D4") none]
  have htext : p.render = text := by decide
  have hread : Reader.read .full text = .ok p := htext ▸ read_render (by decide)
  have hlength : (⟨['1'], none⟩ : Numeral).HasFloat := ⟨.int 1, 1.0, rfl, by decide⟩
  have hviolin : "violin" ∈ Presets.soft.map Prod.fst := by decide
  have hfunction : Stmt.Throughout Stmt.Common
      [.instrument "violin", .note (.single "C4") (some ⟨['1'], none⟩)] := by
    refine Stmt.throughout_iff.2 (List.forall_mem_cons.2 ⟨⟨hviolin, nofun⟩,
      List.forall_mem_singleton.2 ⟨fun n hn => ?_, nofun⟩⟩)
    cases hn
    exact hlength
  have hloop : Stmt.Throughout Stmt.Common [.call "f" []] :=
    Stmt.throughout_iff.2 (List.forall_mem_singleton.2 ⟨trivial, nofun⟩)
  refine palettes_agree hread (Stmt.throughout_iff.2 ?_) _ _
  refine List.forall_mem_cons.2 ⟨⟨trivial, List.forall_mem_singleton.2 hfunction⟩, ?_⟩
  refine List.forall_mem_cons.2 ⟨⟨trivial, List.forall_mem_singleton.2 hloop⟩, ?_⟩
  exact List.forall_mem_cons.2 ⟨⟨trivial, nofun⟩, List.forall_mem_singleton.2 ⟨nofun, nofun⟩⟩

end Program
end TuneScript
