import CoverageQuery.Proofs.Command.Effects
import CoverageQuery.Proofs.Command.Verbs

/-!
# A rendered query is the query that is sent

The text of a query depends on its flags and on the files, and on nothing else. So a run that renders it
shows, up to the end of the line, what every request of a run that executes it carries, whatever the
server answers; and where there is nothing to show there is nothing to send.
-/
namespace CoverageQuery

/-- One run shows what every request of another to a server carries; if it fails, the other fails too
and makes no request. -/
structure Outcome.Previews (shown sent : Outcome) (server : Server) : Prop where
  requests : shown.code = 0 → ∃ requests, sent.server.received = server.received ++ requests ∧
    ∀ r ∈ requests, r.method = .post ∧ r.contentType = some Connector.formType ∧
      ∃ text, Form.decode r.body = [("query", text)] ∧ shown.output = text ++ "\n"
  refusal : shown.code ≠ 0 → sent.code ≠ 0 ∧ sent.server = server

theorem Outcome.previews_of_silent {shown sent : Outcome} {server : Server}
    (hserver : sent.server = server) (hcode : shown.code ≠ 0 → sent.code ≠ 0) :
    shown.Previews sent server where
  requests _ := ⟨[], by rw [hserver, List.append_nil], fun _ hr => absurd hr (by simp)⟩
  refusal hfailed := ⟨hcode hfailed, hserver⟩

namespace World

theorem finish_previews_execute (w : World) (i : Invocation) (flags : QueryFlags)
    (output : Option String) :
    (w.finish (w.queryText flags)).Previews (w.execute i flags output) w.server := by
  rcases w.execute_cases i flags output with ⟨e, _, hfail⟩ | ⟨text, s, htext, hs, hsent⟩
  · rw [hfail]
    exact Outcome.previews_of_silent rfl fun _ => Nat.one_ne_zero
  · rw [htext, hsent]
    refine ⟨fun _ => ?_, fun hcode => absurd rfl hcode⟩
    obtain ⟨requests, hreceived, _, hposts⟩ := (s.asks_submit text).seen
    rw [server_of_session hs] at hreceived
    refine ⟨requests, by rw [server_conclude, hreceived], fun r hr => ?_⟩
    obtain ⟨hmethod, _, htype, hbody⟩ := hposts r hr
    exact ⟨hmethod, htype, text, hbody, rfl⟩

theorem previews_of_read {w : World} {args args' : List String} {i i' : Invocation}
    {flags : QueryFlags} {output : Option String}
    (hread : Arguments.read w.extended.env args = .ok i) (hi : i.command = .render flags)
    (hread' : Arguments.read w.extended.env args' = .ok i')
    (hi' : i'.command = .execute flags output) :
    (w.run args).Previews (w.run args') w.server := by
  rw [run_of_read hread, run_of_read hread', ← w.server_extended]
  simp only [perform, hi, hi']
  exact w.extended.finish_previews_execute i' flags output

theorem previews_of_stop {w : World} {args args' : List String} {stop : Arguments.Stop}
    (hread' : Arguments.read w.extended.env args' = .error stop)
    (h : stop = .help → Arguments.read w.extended.env args = .error .help) :
    (w.run args).Previews (w.run args') w.server := by
  obtain ⟨_, _, _, hserver, hcode⟩ := run_of_stop hread'
  refine Outcome.previews_of_silent hserver fun hfailed hdone => hfailed ?_
  exact (run_of_stop (h (hcode.1 hdone))).2.2.2.2.2 rfl

/-- Rendering a query shows what executing it sends: for any two runs that ask for the same flags, and
for the same arguments behind the two verbs, with an output anywhere among them or without. -/
theorem render_previews_execute (w : World) :
    (∀ args args' i i' flags output, Arguments.read w.extended.env args = .ok i →
      i.command = .render flags → Arguments.read w.extended.env args' = .ok i' →
      i'.command = .execute flags output → (w.run args).Previews (w.run args') w.server) ∧
    ∀ front before option after, Arguments.Leads front →
      (∀ arg ∈ before ++ after, (Arguments.Shape.of arg.toList).names .output = false) →
      Arguments.Optionally .output option →
      (w.run (front ++ "render" :: (before ++ after))).Previews
        (w.run (front ++ "execute" :: (before ++ option ++ after))) w.server := by
  refine ⟨?_, ?_⟩
  · intro args args' i i' flags output hread hi hread' hi'
    exact previews_of_read hread hi hread' hi'
  · intro front before option after hfront hothers hoption
    have hbefore := fun arg harg => hothers arg (List.mem_append_left after harg)
    have hafter := fun arg harg => hothers arg (List.mem_append_right before harg)
    have hread := Arguments.read_execute w.extended.env hfront hbefore hoption hafter
    rcases hread with hwrong | ⟨stop, hstop, hstop'⟩ | ⟨url, config, flags, output, hshown, hsent⟩
    · exact previews_of_stop hwrong (by simp)
    · exact previews_of_stop hstop' fun h => h ▸ hstop
    · exact previews_of_read hshown rfl hsent rfl

def quotedArguments : List String := ["-c", "A", "-s", "place=\"a+b & ü\n%\""]

def respelledArguments : List String := ["--subset=place=\"a+b & ü\n%\"", "-cA"]

theorem render_previews_execute_example :
    let shown := busyWorld.run ("render" :: quotedArguments)
    let sent := busyWorld.run ("execute" :: "-o" :: "map.png" :: quotedArguments)
    let respelled := busyWorld.run ("execute" :: respelledArguments)
    shown.output =
        "for $c in ( A )\nlet $subset := [place(\"a+b & ü\n%\")]\nreturn ( $c [ $subset ] )\n" ∧
      sent.server.received.length = 2 ∧ respelled.server.received.length = 2 ∧
      ∀ r ∈ sent.server.received ++ respelled.server.received,
        ∃ text, Form.decode r.body = [("query", text)] ∧ shown.output = text ++ "\n" := by
  intro shown sent respelled
  obtain ⟨hflags, harguments⟩ := render_previews_execute busyWorld
  have hcode : shown.code = 0 := by decide +kernel
  have hleads : Arguments.Leads [] := by
    intro r hr
    have hverb : Arguments.scan Arguments.globalKeys true 0 {} none ["render"] =
        .ok ({}, some (.render, [])) := by decide +kernel
    obtain rfl := Except.ok.inj (hverb.symm.trans hr)
    rfl
  have hsent : shown.Previews sent busyWorld.server :=
    harguments [] [] ["-o", "map.png"] quotedArguments hleads (by decide +kernel)
      (.apart "map.png" (by decide +kernel) (by decide +kernel))
  have hrespelled : shown.Previews respelled busyWorld.server :=
    hflags _ _ ⟨some "http://host/ows", none, _⟩ ⟨some "http://host/ows", none, _⟩
      ⟨["A"], ["place=\"a+b & ü\n%\""], none, none, none, none⟩ none (by decide +kernel) rfl
      (by decide +kernel) rfl
  have hcarried {o : Outcome} (h : shown.Previews o busyWorld.server) :
      ∀ r ∈ o.server.received,
        ∃ text, Form.decode r.body = [("query", text)] ∧ shown.output = text ++ "\n" := by
    obtain ⟨requests, hreceived, hposts⟩ := h.requests hcode
    obtain rfl : o.server.received = requests := hreceived
    exact fun r hr => (hposts r hr).2.2
  refine ⟨by decide +kernel, by decide +kernel, by decide +kernel, fun r hr => ?_⟩
  rcases List.mem_append.1 hr with hr | hr
  · exact hcarried hsent r hr
  · exact hcarried hrespelled r hr

end World
end CoverageQuery
