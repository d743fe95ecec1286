import SourceNavigator.Db.Mirror
import SourceNavigator.Db.RoundTrip
import SourceNavigator.Db.Undo
import SourceNavigator.Db.LockExclusion
import SourceNavigator.Db.Dump
import SourceNavigator.Db.TableCommand
import SourceNavigator.Db.ClassClosure
import SourceNavigator.Hyper.RecudirOnce
import SourceNavigator.Cpp.MacroMarks
import SourceNavigator.Cpp.CrossRefFile
import SourceNavigator.Cpp.FirstPass.TypedefName
import SourceNavigator.Cpp.FirstPass.MainLoop
import SourceNavigator.Parsers.BtreeTable.History
import SourceNavigator.Cpp.ExprValue
import SourceNavigator.Cpp.Types.Ends
import SourceNavigator.Cpp.Types.PointerExpr
import SourceNavigator.Cpp.LocalBodies
import SourceNavigator.Cpp.TokenWindow
import SourceNavigator.Cpp.CrossRefQueries
import SourceNavigator.Cpp.Scanner.Positions
import SourceNavigator.Cpp.Expression.OperatorNames
import SourceNavigator.Cpp.Expression.Access
import SourceNavigator.Hyper.ListRecord
import SourceNavigator.Db.LateScope
import SourceNavigator.Db.MethodLookup
import SourceNavigator.Db.TypeIndex
import SourceNavigator.Hyper.DeleteMatches
import SourceNavigator.Hyper.Columns
import SourceNavigator.Hyper.BraceBalance
import SourceNavigator.Hyper.RetrieverLine
import SourceNavigator.Hyper.AbsolutePath
import SourceNavigator.LongStr.SplitJoin
import SourceNavigator.Hyper.FillTree
import SourceNavigator.Hyper.MemberFilters
import SourceNavigator.Hyper.CrossRuns
import SourceNavigator.Hyper.IndexOrder
import SourceNavigator.Hyper.TreeSearch
import SourceNavigator.Layout.LayoutRuns
import SourceNavigator.Cpp.MacroFile
import SourceNavigator.Parsers.EncodedInput
import SourceNavigator.Parsers.Python.Attribution
import SourceNavigator.Cpp.LocalTypes.Enumerators
import SourceNavigator.Parsers.SearchTable.Probes
import SourceNavigator.Cpp.TokenRing
import SourceNavigator.Parsers.Php.Positions
