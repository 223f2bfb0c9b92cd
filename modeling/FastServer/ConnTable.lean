import FastServer.Core

namespace FastServer.ConnTable

open Core Engine

variable {H : Type} {serve : Serve H} {e e₁ e' : Engine H} {c c' : Connection} {fd : Int}

/-- What a table entry keeps between two events: its own fd, a reading state, no request, and
an 8192-byte read buffer with room left in it. -/
structure ConnOk (fd : Int) (c : Connection) : Prop where
  fd_eq : c.fd = fd
  state_ok : c.state = .reading ∨ c.state = .keepalive
  request_eq : c.request = none
  readBuf_eq : ∃ id, c.readBuf = some (id, readBufSize)
  received_lt : c.received.length < readBufSize

/-- The table and the poller hold the same fds, each once, and every entry is `ConnOk`. -/
structure Consistent (e : Engine H) : Prop where
  watched_nodup : e.watched.Nodup
  mem_watched : ∀ fd, fd ∈ e.watched ↔ (e.connections.get fd).isSome
  conn_ok : ∀ fd c, e.connections.get fd = some c → ConnOk fd c

/-- What an event on `fd` does to the table: the entry is removed together with its poller
registration, or it is replaced by a `ConnOk` entry. -/
def TableStep (fd : Int) (e e' : Engine H) : Prop :=
  (e'.watched = e.watched.erase fd ∧ e'.connections.get = Function.update e.connections.get fd none) ∨
    ∃ c, ConnOk fd c ∧ e'.watched = e.watched ∧
      e'.connections.get = Function.update e.connections.get fd (some c)

theorem conn_ok_update {g : Int → Option Connection} {o : Option Connection}
    (h : ∀ j c, g j = some c → ConnOk j c) (ho : ∀ c, o = some c → ConnOk fd c) :
    ∀ j c, Function.update g fd o j = some c → ConnOk j c := by
  intro j c hj
  by_cases hjf : j = fd
  · subst hjf; exact ho c (by simpa using hj)
  · exact h j c (by rwa [Function.update_noteq hjf] at hj)

namespace Consistent

theorem congr (h : Consistent e) (hc : e'.connections = e.connections) (hw : e'.watched = e.watched) :
    Consistent e' :=
  ⟨hw ▸ h.watched_nodup, by simpa only [hw, hc] using h.mem_watched, by simpa only [hc] using h.conn_ok⟩

theorem tableStep (h : Consistent e) (hfd : (e.connections.get fd).isSome) (ht : TableStep fd e e') :
    Consistent e' := by
  rcases ht with ⟨hw, hg⟩ | ⟨c, hc, hw, hg⟩
  · refine ⟨hw ▸ h.watched_nodup.erase fd, fun j => ?_, by rw [hg]; exact conn_ok_update h.conn_ok (by simp)⟩
    rw [hw, h.watched_nodup.mem_erase_iff, hg]
    by_cases hj : j = fd
    · subst hj; simp
    · simp [Function.update_noteq hj, h.mem_watched, hj]
  · refine ⟨hw ▸ h.watched_nodup, fun j => ?_, by rw [hg]; exact conn_ok_update h.conn_ok (by rintro _ ⟨⟩; exact hc)⟩
    rw [hw, hg]
    by_cases hj : j = fd
    · subst hj; simpa using (h.mem_watched j).mpr hfd
    · simp [Function.update_noteq hj, h.mem_watched]

theorem insert (h : Consistent e) (hnew : e.connections.get fd = none) (hc : ConnOk fd c)
    (hw : e'.watched = e.watched ++ [fd]) (hg : e'.connections.get = Function.update e.connections.get fd (some c)) :
    Consistent e' := by
  have hfd : fd ∉ e.watched := by simp [h.mem_watched, hnew]
  refine ⟨hw ▸ List.pairwise_append.mpr ⟨h.watched_nodup, List.pairwise_singleton _ _, fun x hx y hy => by
    rw [List.mem_singleton] at hy; rintro rfl; exact hfd (hy ▸ hx)⟩, fun j => ?_,
    by rw [hg]; exact conn_ok_update h.conn_ok (by rintro _ ⟨⟩; exact hc)⟩
  rw [hw, hg, List.mem_append, List.mem_singleton]
  by_cases hj : j = fd
  · subst hj; simp
  · simp [Function.update_noteq hj, h.mem_watched, hj]

theorem closeConnection (h : Consistent e) (fd : Int) : Consistent (e.closeConnection fd) := by
  cases hc : e.connections.get fd with
  | none => rwa [closeConnection_of_get_none hc]
  | some c =>
      have hfd : (e.connections.get fd).isSome := by simp [hc]
      refine h.tableStep hfd (.inl ⟨?_, ?_⟩) <;> simp [closeConnection_of_get_some hc, GoMap.get_delete]

theorem reap (h : Consistent e) (idle : Int → Bool) : Consistent (e.reap idle) := by
  unfold Engine.reap
  generalize (List.filter _ e.connections).map Prod.fst = fds
  induction fds generalizing e with
  | nil => exact h
  | cons fd fds ih => exact ih (h.closeConnection fd)

end Consistent

section TableStep

theorem tableStep_self (hc : e.connections.get fd = some c) (hok : ConnOk fd c) : TableStep fd e e :=
  .inr ⟨c, hok, rfl, by rw [← hc, Function.update_eq_self]⟩

theorem tableStep_close (hw : e₁.watched = e.watched)
    (hg : e₁.connections.get = Function.update e.connections.get fd (some c)) :
    TableStep fd e (e₁.closeConnection fd) := by
  have hc : e₁.connections.get fd = some c := by simp [hg]
  refine .inl ⟨?_, ?_⟩ <;> simp [closeConnection_of_get_some hc, GoMap.get_delete, hg, hw]

theorem tableStep_close_self (hc : e.connections.get fd = some c) : TableStep fd e (e.closeConnection fd) :=
  tableStep_close rfl (by rw [← hc, Function.update_eq_self])

theorem tableStep_setConn (hw : e₁.watched = e.watched)
    (hg : e₁.connections.get = Function.update e.connections.get fd (some c)) (hok : ConnOk fd c') :
    TableStep fd e (e₁.setConn c') :=
  .inr ⟨c', hok, hw, by simp [GoMap.get_set, hg, hok.fd_eq]⟩

theorem tableStep_checkKeepAlive (hw : e₁.watched = e.watched)
    (hg : e₁.connections.get = Function.update e.connections.get c.fd (some c)) {q : Nat × Request.Request}
    (hq : c.request = some q) (hbuf : ∃ id, c.readBuf = some (id, readBufSize)) :
    TableStep c.fd e (e₁.checkKeepAlive c) := by
  obtain ⟨id, req⟩ := q
  simp only [checkKeepAlive, hq]
  split
  · exact tableStep_close hw hg
  · exact tableStep_setConn hw hg ⟨rfl, .inl rfl, rfl, hbuf, by simp [readBufSize]⟩

theorem handleRead_tableStep (hc : e.connections.get c.fd = some c) (hok : ConnOk c.fd c)
    {r : ReadResult} (h : e.handleRead serve c r = .ok e') : TableStep c.fd e e' := by
  obtain ⟨id, hbuf⟩ := hok.readBuf_eq
  cases r with
  | eagain => cases h; exact tableStep_self hc hok
  | error => cases h; exact tableStep_close_self hc
  | data chunk =>
      have hlen : (c.readBuf.map (·.2)).getD 0 = readBufSize := by simp [hbuf]
      simp only [handleRead, hlen] at h
      split at h
      · cases h; exact tableStep_close_self hc
      split at h
      · cases h; exact tableStep_self hc hok
      split at h
      · cases h
      · split at h <;> cases h
        · exact tableStep_close (c := { c with received := c.received ++ chunk }) rfl (by simp [GoMap.get_set])
        · exact .inr ⟨{ c with received := c.received ++ chunk }, ⟨rfl, hok.state_ok, hok.request_eq,
            ⟨id, hbuf⟩, by simp only [readBufSize, List.length_append] at *; omega⟩, rfl,
            by simp [GoMap.get_set]⟩
      · obtain ⟨e₂, rfl, hc₂, hw₂⟩ := processRequest_cases h
        exact tableStep_checkKeepAlive hw₂ (by simp [hc₂, GoMap.get_set]) rfl ⟨id, hbuf⟩

end TableStep

theorem step_consistent (h : Consistent e) {ev : Event} (hs : e.step serve ev = .ok e') : Consistent e' := by
  cases ev with
  | accept nfd nonblockOk addOk =>
      simp only [step] at hs
      split at hs
      · cases hs; exact h
      cases hs
      have hnew := Option.not_isSome_iff_eq_none.mp ‹_›
      unfold acceptOne
      split
      · split
        · exact h.insert (c := ⟨e.nextObj, nfd, .reading, some (e.nextObj + 1, readBufSize), [], none, none⟩)
            hnew ⟨rfl, .inl rfl, rfl, ⟨_, rfl⟩, by simp [readBufSize]⟩ rfl (by simp [GoMap.get_set])
        · exact h.congr rfl rfl
      · exact h
  | readable fd r =>
      cases hc : e.connections.get fd with
      | none =>
          simp only [step, handleConnectionEvent, hc, Except.ok.injEq] at hs
          exact hs ▸ h
      | some c =>
          have hok := h.conn_ok fd c hc
          obtain rfl := hok.fd_eq
          rw [step_readable hc hok.state_ok] at hs
          exact h.tableStep (by simp [hc]) (handleRead_tableStep hc hok hs)
  | reap idle => cases hs; exact h.reap idle

theorem run_consistent (h : Consistent e) {evs : List Event} (hr : e.run serve evs = .ok e') :
    Consistent e' := by
  induction evs generalizing e with
  | nil => cases hr; exact h
  | cons ev evs ih =>
      simp only [run] at hr
      split at hr
      · cases hr
      · exact ih (step_consistent h ‹_›) hr

end FastServer.ConnTable
