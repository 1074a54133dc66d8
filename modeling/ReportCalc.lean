import ReportCalc.Agent.Recalculation
import ReportCalc.Proofs.Agent.Absence
import ReportCalc.Proofs.Agent.Containment
import ReportCalc.Proofs.Agent.Ending
import ReportCalc.Proofs.Agent.Fatality
import ReportCalc.Proofs.Agent.Independence
import ReportCalc.Proofs.Agent.Isolation
import ReportCalc.Proofs.Agent.Kinds
import ReportCalc.Proofs.Agent.Limits
import ReportCalc.Proofs.Agent.Reading
import ReportCalc.Proofs.Agent.Setting
import ReportCalc.Proofs.Agent.Typing
import ReportCalc.Proofs.Dispatch.Coverage
import ReportCalc.Proofs.Dispatch.Precedence
import ReportCalc.Proofs.Evaluation.Logic
import ReportCalc.Proofs.Report.Rows
import ReportCalc.Proofs.Report.Slots
import ReportCalc.Proofs.Report.Uniqueness
import ReportCalc.Proofs.Report.Width
import ReportCalc.Proofs.Report.Writing
import ReportCalc.Proofs.Value.Ordering
import ReportCalc.Proofs.Value.Promotion
