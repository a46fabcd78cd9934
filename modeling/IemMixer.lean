import IemMixer.Lib.Float64
import IemMixer.Lib.OrdMap
import IemMixer.Lib.Except
import IemMixer.Proto.State
import IemMixer.Proto.Msg
import IemMixer.Proto.Shape
import IemMixer.Proto.ReconcileProofs
import IemMixer.Topology
import IemMixer.TopologyProofs
import IemMixer.Lib.Schedule
import IemMixer.Rt.Render
import IemMixer.Rt.RenderProofs
import IemMixer.Core.State
import IemMixer.Params
import IemMixer.Core.Commands
import IemMixer.Core.Edit
import IemMixer.Core.BatchProofs
import IemMixer.Core.StateProofs
import IemMixer.Core.Run
import IemMixer.Mirror
import IemMixer.Link
import IemMixer.MirrorProofs
import IemMixer.Rt.Dsp
import IemMixer.Rt.Processor
import IemMixer.Rt.Targets
import IemMixer.Rt.SyncProofs
import IemMixer.Rt.FullSyncProofs
import IemMixer.Lib.Files
import IemMixer.Persist.Names
import IemMixer.Persist.NamesProofs
import IemMixer.Persist.Chain
import IemMixer.Persist.ChainProofs
import IemMixer.Persist.SaveProofs
import IemMixer.Persist.History
import IemMixer.Persist.KeepProofs
import IemMixer.Persist.FloorProofs
import IemMixer.Persist.AcceptProofs
import IemMixer.Persist.ReadingProofs
import IemMixer.Control.Loop
import IemMixer.Control.StepProofs
import IemMixer.Control.SavingProofs
import IemMixer.Control.RoleProofs
import IemMixer.Control.SoloProofs
import IemMixer.Control.GraceProofs
import IemMixer.Rt.Wire
import IemMixer.Rt.WireProofs
import IemMixer.TopologyOutputs
import IemMixer.Rt.Output
import IemMixer.Media.Tap
import IemMixer.Media.TapProofs
import IemMixer.Media.Talkback
import IemMixer.Media.TalkbackProofs
import IemMixer.Lib.Base64
import IemMixer.Lib.Text
import IemMixer.Jwt
import IemMixer.JwtProofs
import IemMixer.Ui.Fader
import IemMixer.Ui.FaderProofs
import IemMixer.Lib.Bytes
import IemMixer.Lib.Cutting
import IemMixer.Pipe
import IemMixer.FramingProofs
import IemMixer.Control.SpeechProofs
import IemMixer.Control.Counting
import IemMixer.Control.CountingProofs
import IemMixer.Server.Client
import IemMixer.Server.ClientProofs
import IemMixer.Lib.Process
import IemMixer.Server.Desk
import IemMixer.Server.Switch
import IemMixer.Server.DeskProofs
import IemMixer.Server.SwitchProofs
import IemMixer.Server.CrashProofs
import IemMixer.Server.DurableProofs
import IemMixer.Server.RosterProofs
import IemMixer.Lib.Recent
import IemMixer.Server.LoginGuard
import IemMixer.Server.LoginGuardProofs
import IemMixer.Server.RosterProblems
import IemMixer.Server.Migration
import IemMixer.Rt.OutputProofs
import IemMixer.Lib.Rounding
import IemMixer.Rt.TestProofs
import IemMixer.Rt.Latency
import IemMixer.Rt.LatencyProofs
import IemMixer.Lib.Window
import IemMixer.LimiterMga
import IemMixer.LimiterMgaProofs
import IemMixer.Server.MigrationProofs
import IemMixer.Server.SiteView
import IemMixer.Server.View
import IemMixer.Ui.Phone
import IemMixer.Ui.PhoneProofs
import IemMixer.Server.SiteProofs
import IemMixer.Server.RampExact
import IemMixer.Server.RampLevels
import IemMixer.Server.RampEdits
import IemMixer.Server.RampPlay
import IemMixer.Server.RampProofs
import IemMixer.Server.ConfineProofs
import IemMixer.Server.Session
import IemMixer.Server.SessionProofs
import IemMixer.Server.Freeze
import IemMixer.Server.FreezeProofs
import IemMixer.Server.Barrier
import IemMixer.Server.CallProofs
import IemMixer.Server.ApplyProofs
import IemMixer.Server.BarrierProofs
import IemMixer.Server.MovesProofs
import IemMixer.Lib.Shed
import IemMixer.Server.BandStore
import IemMixer.Server.BandStoreProofs
import IemMixer.Server.RosterFacts
import IemMixer.Server.Redact
import IemMixer.Server.SecrecyProofs
import IemMixer.Server.PagesProofs
import IemMixer.Server.PinStore
import IemMixer.Server.Auth
import IemMixer.Server.PinProofs
import IemMixer.Server.Removal
import IemMixer.Server.RemovalProofs
import IemMixer.Server.LoginProofs
import IemMixer.Lib.Runs
import IemMixer.Core.TapProofs
import IemMixer.Server.Listen
import IemMixer.Server.ListenProofs
import IemMixer.Core.SoloWrites
import IemMixer.Server.SoloJanitor
import IemMixer.Server.SoloJanitorProofs
import IemMixer.Server.EntryProofs
import IemMixer.Server.RestoreProofs
import IemMixer.Server.Preview
import IemMixer.Server.PreviewLists
import IemMixer.Server.PreviewProofs
import IemMixer.Server.MuteAllProofs
import IemMixer.Server.BackupStore
import IemMixer.Server.BackupStoreProofs
import IemMixer.TopologyTables
import IemMixer.Lib.DelayLine
import IemMixer.Media.Resample
import IemMixer.Media.ResampleProofs
import IemMixer.Lib.Sequence
import IemMixer.Denylist.Content
import IemMixer.Denylist.SegmentProofs
import IemMixer.Denylist.LineProofs
import IemMixer.Lib.Dict
import IemMixer.Lib.Cumulative
import IemMixer.Guard.Watch
import IemMixer.Guard.FeedProofs
import IemMixer.Guard.WatchProofs
import IemMixer.Ui.SoloKnown
import IemMixer.Server.TransitionRuns
import IemMixer.Server.LineupStoreProofs
import IemMixer.Server.FollowPeopleProofs
import IemMixer.Server.BackupDaemonProofs
import IemMixer.Server.LineupRoutesProofs
import IemMixer.Ui.LineupProofs
import IemMixer.Server.RosterCheckProofs
